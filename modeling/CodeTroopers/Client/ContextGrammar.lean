import CodeTroopers.Client.ContextSequence
import CodeTroopers.Client.Parser
import CodeTroopers.Client.Readers

set_option autoImplicit false

/-! # A player context is accepted exactly if it is in the grammar

`readPlayerContext_grammar` is the direction from the bytes to the message, for any stream and
either state of the two caches. Whatever the client accepts is a spelling of the context it returns:
written again by the encoders it has the same length, and the same bytes but for the booleans that
were neither zero nor one. Whatever it does not accept is a `Refusal`, if no dimensions have a
product of `2^31` or more, and the first one: the client waits for more bytes on every shorter
prefix and does the same thing whatever follows. -/

namespace CodeTroopers

open StreamProgram ByteOrder WireFormat

/-! ## Refusals -/

/-- A stream on which no context is returned: what is returned instead, the bytes consumed, and what
    is left. -/
inductive Refusal (client : RemoteProcessClient) :
    Except Ending (Option PlayerContext × RemoteProcessClient) → List UInt8 → List UInt8 → Prop
  /-- A message of type `GAME_OVER`. -/
  | gameOver (rest : List UInt8) : Refusal client (.ok (none, client)) [1] rest
  /-- A message of another type. -/
  | messageType (t : Int8) (hover : t ≠ MessageType.gameOver.toCode)
      (hcontext : t ≠ MessageType.playerContext.toCode) (rest : List UInt8) :
      Refusal client (.error (.exit 10011)) [t.toUInt8] rest
  /-- A message of type `PLAYER_CONTEXT` whose presence flag is zero. -/
  | absent (rest : List UInt8) : Refusal client (.ok (none, client)) [6, 0] rest
  /-- A violation of the grammar further inside. -/
  | violation {e : Ending} (before : List UInt8) {token : List UInt8} (h : Violation e token)
      (rest : List UInt8) : Refusal client (.error e) (before ++ token) rest
  /-- The stream ends too early. -/
  | short (used : List UInt8) : Refusal client (.error (.exit 10012)) used []

/-- The bytes consumed end in dimensions whose product is too large for an `int`. -/
def EndsOversized (used : List UInt8) : Prop :=
  ∃ before token, used = before ++ token ∧ Oversized token

/-- The wrong message type is never reported from inside a message. -/
theorem not_fault_exit_10011 (token : List UInt8) : ¬ Fault (.exit 10011) token := by
  intro h
  rcases h with h | ⟨h, _⟩
  · cases h with
    | absent h => exact absurd h (by decide)
    | negative h => exact absurd h (by decide)
  · exact absurd h (by decide)

/-- The client gives up on a message type only at the first byte. -/
theorem messageType_of_exit_10011 {ν : Type} {client : RemoteProcessClient} {c c' : Stream ν}
    (h : runStream (RemoteProcessClient.readPlayerContext .little client) c
      = (.error (.exit 10011), c')) :
    ∃ t : Int8, t ≠ MessageType.gameOver.toCode ∧ t ≠ MessageType.playerContext.toCode ∧
      c.inbound = [t.toUInt8] ++ c'.inbound := by
  have henum : Parses Fault (RemoteProcessClient.readEnum : Client ν Int8) _ := parses_readEnum
  rw [readPlayerContext_eq, runStream, run_bind_eq_error_iff] at h
  rcases h with h | ⟨t, c₁, hread, h⟩
  · obtain ⟨_, ⟨hshort, _⟩ | ⟨_, token, _, hfault⟩⟩ := henum.rejects _ _ _ h
    · exact absurd hshort (by decide)
    · exact absurd hfault (not_fault_exit_10011 token)
  · obtain ⟨_, bytes, rest, ⟨_, rfl⟩, hsp, hin, rfl⟩ := (henum.accepts _ _ _).mp hread
    rw [spells_encodeCode_iff] at hsp
    by_cases hover : t = MessageType.gameOver.toCode
    · rw [if_pos hover] at h
      simp at h
    rw [if_neg hover, RemoteProcessClient.ensureMessageType] at h
    by_cases hcontext : t = MessageType.playerContext.toCode
    · rw [if_neg (not_not.mpr hcontext)] at h
      obtain ⟨_, ⟨hshort, _⟩ | ⟨_, token, _, hfault⟩⟩ :=
        (parses_readPresentContext client).rejects _ _ _ h
      · exact absurd hshort (by decide)
      · exact absurd hfault (not_fault_exit_10011 token)
    · rw [if_pos hcontext] at h
      cases h
      exact ⟨t, hover, hcontext, hsp ▸ hin⟩

/-- Every run that returns no context is a refusal, or has met dimensions that are too large. -/
theorem refusal_of_run {ν : Type} {client : RemoteProcessClient} {c c' : Stream ν}
    {r : Except Ending (Option PlayerContext × RemoteProcessClient)}
    (hrun : runStream (RemoteProcessClient.readPlayerContext .little client) c = (r, c'))
    (hnone : ∀ ctx client', r ≠ .ok (some ctx, client')) :
    ∃ used, c.inbound = used ++ c'.inbound ∧
      (Refusal client r used c'.inbound ∨ (r = .error .abort ∧ EndsOversized used)) := by
  cases r with
  | ok b =>
      obtain ⟨message, bytes, rest, hmessage, hsp, hin, rfl⟩ :=
        ((parses_readPlayerContext client).accepts _ _ _).mp hrun
      refine ⟨bytes, hin, Or.inl ?_⟩
      cases hmessage with
      | gameOver =>
          rw [spells_encodeCode_iff] at hsp
          exact hsp ▸ .gameOver rest
      | absent =>
          obtain ⟨u₁, u₂, hsp₁, hsp₂, rfl⟩ := (spells_append_iff _ _ _).mp hsp
          rw [spells_encodeCode_iff] at hsp₁
          rw [hsp₁, eq_zero_of_spells_false hsp₂]
          exact .absent rest
      | present ctx h hvalid => exact absurd rfl (hnone ctx _)
  | error e =>
      obtain ⟨_, ⟨rfl, hend⟩ | ⟨before, token, hin, hfault⟩⟩ :=
        (parses_readPlayerContext client).rejects _ _ _ hrun
      · refine ⟨c.inbound, by rw [hend, List.append_nil], Or.inl ?_⟩
        rw [hend]
        exact .short c.inbound
      · rcases hfault with (hviolation | ⟨rfl, hsize⟩) | ⟨rfl, _⟩
        · exact ⟨before ++ token, hin, Or.inl (.violation before hviolation _)⟩
        · exact ⟨before ++ token, hin, Or.inr ⟨rfl, before, token, rfl, hsize⟩⟩
        · -- the type is the first byte of the message
          obtain ⟨t, hover, hcontext, hin'⟩ := messageType_of_exit_10011 hrun
          exact ⟨[t.toUInt8], hin', Or.inl (.messageType t hover hcontext _)⟩

/-- **The parser accepts exactly its grammar**: an accepted context written again gives back the
    bytes consumed, and anything else is a refusal (or declares a table too large to ask for), of
    which the client sees no sign before its last byte and which it makes whatever comes behind.
    There is memory for every list whose count is read. -/
theorem readPlayerContext_grammar {ν : Type} (client : RemoteProcessClient) (c : Stream ν) :
    (∀ ctx client' c', runStream (RemoteProcessClient.readPlayerContext .little client) c
        = (.ok (some ctx, client'), c') →
      ∃ h u, c.inbound = u ++ c'.inbound ∧ Rewrites (encodePlayerContext client h ctx) u) ∧
    ∀ r c', runStream (RemoteProcessClient.readPlayerContext .little client) c = (r, c') →
      (∀ ctx client', r ≠ .ok (some ctx, client')) →
      ∃ used, c.inbound = used ++ c'.inbound ∧
        (Refusal client r used c'.inbound ∨ (r = .error .abort ∧ EndsOversized used)) ∧
        (r ≠ .error (.exit 10012) →
          (∀ rest, runStream (RemoteProcessClient.readPlayerContext .little client)
            { c with inbound := used ++ rest } = (r, { c with inbound := rest })) ∧
          ∀ u w, used = u ++ w → w ≠ [] →
            runStream (RemoteProcessClient.readPlayerContext .little client)
              { c with inbound := u } = (.error (.exit 10012), { c with inbound := [] })) := by
  refine ⟨fun ctx client' c' hrun => ?_, fun r c' hrun hnone => ?_⟩
  · obtain ⟨message, u, rest, hmessage, hsp, hin, rfl⟩ :=
      ((parses_readPlayerContext client).accepts _ _ _).mp hrun
    -- only the message with a context returns one
    cases hmessage with
    | present ctx h hvalid => exact ⟨h, u, hin, hsp.rewrites⟩
  · obtain ⟨used, hin, hrefusal⟩ := refusal_of_run hrun hnone
    refine ⟨used, hin, hrefusal, fun hr => ?_⟩
    obtain ⟨used', hin', hafter, hbefore⟩ :=
      run_of_prefix (onlyReads_readPlayerContext .little client) hrun hr
    have hused : used = used' := List.append_cancel_right (hin.symm.trans hin')
    subst hused
    exact ⟨hafter, hbefore⟩

/-- A context that is returned, and written again. -/
theorem readPlayerContext_grammar_twoCell :
    let bytes := canonical (encodePlayerContext .initial twoCellHeader twoCellContext)
    (∃ client', runStream (RemoteProcessClient.readPlayerContext .little .initial : Client Unit _)
        ⟨bytes, [], []⟩ = (.ok (some twoCellContext, client'), ⟨[], [], []⟩)) ∧
      ∃ h, Rewrites (encodePlayerContext .initial h twoCellContext) bytes := by
  intro bytes
  have hrun := readPlayerContext_encode (ν := Unit) validWorld_twoCellContext
    (c := ⟨bytes, [], []⟩) (List.append_nil bytes).symm
  obtain ⟨h, u, hin, hwrites⟩ := (readPlayerContext_grammar .initial _).1 _ _ _ hrun
  obtain rfl : bytes = u := by simpa using hin
  exact ⟨⟨_, hrun⟩, h, hwrites⟩

end CodeTroopers
