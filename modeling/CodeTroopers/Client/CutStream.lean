import CodeTroopers.Client.Lockstep
import CodeTroopers.Library.FailingHandler

set_option autoImplicit false

/-! # A connection that breaks off

What the client has written when it has read a part of the inbound stream does not depend on what
comes behind: a session over a stream that breaks off is the session over the whole stream, or it
ends with exit code 10012 and a part of the dialogue. By `streamHandler_follows` this holds of every
program of the client. A session also takes the length of the stream as its fuel, but rounds enough
are enough (`run_fuel`): each of them consumes something. -/

namespace CodeTroopers

open StreamProgram ByteOrder CheckedVector

variable {σ : Type}

/-! ## Rounds enough are enough -/

theorem runStream_bind_congr {α β : Type} {p : Client Event β} {f f' : β → Client Event α}
    {c : Stream Event}
    (h : ∀ b c', runStream p c = (.ok b, c') → runStream (f b) c' = runStream (f' b) c') :
    runStream (p.bind f) c = runStream (p.bind f') c := by
  rw [runStream, runStream, run_bind, run_bind]
  generalize hp : run streamHandler p c = r
  obtain ⟨e | b, c'⟩ := r
  · rfl
  · exact h b c' hp

theorem playLoop_fuel (host : Order) (strategies : List (Strategy σ)) (game : Game)
    {fuel fuel' : ℕ} (client : RemoteProcessClient) (s : σ) (c : Stream Event)
    (h : c.inbound.length < fuel) (h' : c.inbound.length < fuel') :
    runStream (Runner.playLoop host strategies game fuel client s) c
      = runStream (Runner.playLoop host strategies game fuel' client s) c := by
  induction fuel generalizing fuel' client s c with
  | zero => exact absurd h (Nat.not_lt_zero _)
  | succ fuel ih =>
      cases fuel' with
      | zero => exact absurd h' (Nat.not_lt_zero _)
      | succ fuel' =>
          rw [Runner.playLoop, Runner.playLoop]
          refine runStream_bind_congr fun b c₁ hread => ?_
          have hread' := (takes_readPlayerContext host client).length_le hread
          rcases b with ⟨_ | ctx, client'⟩
          · rfl
          refine runStream_bind_congr fun _ c₂ hnote => ?_
          have hnote' := (takes_noteEvent _).length_le hnote
          dsimp only
          split
          · rfl
          split
          · rfl
          refine runStream_bind_congr fun _ c₃ hwrite => ?_
          have hwrite' := (takes_of_writes (writes_writeMove host _)).length_le hwrite
          refine runStream_bind_congr fun _ c₄ hdone => ?_
          have hdone' := (takes_noteEvent _).length_le hdone
          exact ih client' _ c₄ (by omega) (by omega)

theorem run_fuel (host : Order) (token : List UInt8) (family : ℕ → Strategy σ) (s : σ)
    {fuel fuel' : ℕ} (c : Stream Event) (h : c.inbound.length < fuel)
    (h' : c.inbound.length < fuel') :
    runStream (Runner.run host token family s fuel) c
      = runStream (Runner.run host token family s fuel') c := by
  -- none of the messages before the loop puts bytes back
  refine runStream_bind_congr fun _ c₁ h₁ => ?_
  refine runStream_bind_congr fun _ c₂ h₂ => ?_
  refine runStream_bind_congr fun _ c₃ h₃ => ?_
  refine runStream_bind_congr fun _ c₄ h₄ => ?_
  refine runStream_bind_congr fun _ c₅ h₅ => ?_
  refine runStream_bind_congr fun _ c₆ h₆ => ?_
  refine runStream_bind_congr fun _ c₇ h₇ => ?_
  refine runStream_bind_congr fun _ c₈ h₈ => ?_
  have hle : c₈.inbound.length ≤ c.inbound.length := by
    calc c₈.inbound.length ≤ c₇.inbound.length := (takes_noteEvent _).length_le h₈
      _ ≤ c₆.inbound.length := (takes_of_readsOnly (onlyReads_readGameContext host)).length_le h₇
      _ ≤ c₅.inbound.length := (takes_noteEvent _).length_le h₆
      _ ≤ c₄.inbound.length := (takes_of_writes (writes_writeProtocolVersion host)).length_le h₅
      _ ≤ c₃.inbound.length := (takes_noteEvent _).length_le h₄
      _ ≤ c₂.inbound.length := (takes_of_readsOnly (onlyReads_readTeamSize host)).length_le h₃
      _ ≤ c₁.inbound.length := (takes_noteEvent _).length_le h₂
      _ ≤ c.inbound.length := (takes_of_writes (writes_writeToken host token)).length_le h₁
  exact playLoop_fuel host _ _ _ s c₈ (by omega) (by omega)

/-! ## The cut -/

theorem extended_freshStream (u w : List UInt8) :
    Extended w (freshStream u) (freshStream (u ++ w)) := ⟨rfl, rfl, rfl⟩

theorem map_event_behind (w : List UInt8) (log : List (Mark Event)) :
    (log.map (Mark.behind w)).map Mark.event = log.map Mark.event := by
  rw [List.map_map]
  rfl

/-- **A session over a stream that breaks off.** For all bytes `w` that would have come behind, it
    is the session over the whole stream with `w` unread, or it ends with exit code 10012 when all
    bytes are read; then the bytes written and the messages completed are the first of those of the
    whole session. -/
theorem session_cut (host : Order) (token : List UInt8) (family : ℕ → Strategy σ) (s : σ)
    (u w : List UInt8) :
    let cut := runStream (Runner.session host token family s u) (freshStream u)
    let whole := runStream (Runner.session host token family s (u ++ w)) (freshStream (u ++ w))
    (whole.1 = cut.1 ∧ whole.2.inbound = cut.2.inbound ++ w ∧ whole.2.outbound = cut.2.outbound ∧
      whole.2.log.map Mark.event = cut.2.log.map Mark.event) ∨
    (cut.1 = .error (.exit 10012) ∧ cut.2.inbound = [] ∧ cut.2.outbound <+: whole.2.outbound ∧
      cut.2.log.map Mark.event <+: whole.2.log.map Mark.event) := by
  intro cut whole
  have hcut : cut = runStream (Runner.session host token family s (u ++ w)) (freshStream u) := by
    have hlen : u.length < (u ++ w).length + 1 := by
      rw [List.length_append]
      omega
    exact run_fuel host token family s (freshStream u) (Nat.lt_succ_self _) hlen
  rcases run_follows (streamHandler_follows w) (Runner.session host token family s (u ++ w))
    (freshStream u) (freshStream (u ++ w)) (extended_freshStream u w) with ⟨hend, h⟩ | ⟨e, hend, h⟩
  · rw [← runStream, ← hcut] at hend h
    refine Or.inl ⟨hend.symm, h.inbound_eq, h.outbound_eq, ?_⟩
    exact (congrArg (List.map Mark.event) h.log_eq).trans (map_event_behind w _)
  · rw [← runStream, ← hcut] at hend h
    refine Or.inr ⟨by rw [hend, h.ending_eq]; rfl, h.inbound_eq, h.outbound_prefix, ?_⟩
    rw [← map_event_behind w]
    exact h.log_prefix.map Mark.event

end CodeTroopers
