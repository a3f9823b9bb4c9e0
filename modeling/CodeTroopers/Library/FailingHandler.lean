import CodeTroopers.Library.StreamProgram

set_option autoImplicit false

/-! # Handlers that may fail before others do

`Follows` compares two handlers of which the first may give up in a read or a write that the second
one still serves. `run_follows` says what that means for whole runs: they go alike until the first
one has given up. What the second one still does then must keep the relation to the state that was
given up in.

The reference handler follows itself on a longer stream (`streamHandler_follows`): a stream that is
cut off is served like the whole one up to the cut. -/

namespace StreamProgram

variable {ε ν α σ τ : Type}

/-- Two operations or runs give the same and leave states in `R`, or the first one has ended and
    left states in `Q`. -/
def Alike (R : σ → τ → Prop) (Q : ε → σ → τ → Prop) (o₁ : Except ε α × σ) (o₂ : Except ε α × τ) :
    Prop :=
  (o₁.1 = o₂.1 ∧ R o₁.2 o₂.2) ∨ ∃ e, o₁.1 = .error e ∧ Q e o₁.2 o₂.2

/-- The operations of the first handler agree with those of the second up to `R`, or end its run;
    `Q` relates the states from then on, and no operation of the second breaks it. -/
structure Follows (h₁ : Handler ε ν σ) (h₂ : Handler ε ν τ) (R : σ → τ → Prop)
    (Q : ε → σ → τ → Prop) : Prop where
  read : ∀ n s t, R s t → Alike R Q (h₁.read n s) (h₂.read n t)
  write : ∀ bytes s t, R s t → Alike R Q (h₁.write bytes s) (h₂.write bytes t)
  note : ∀ event s t, R s t → R (h₁.note event s) (h₂.note event t)
  over_read : ∀ e n s t, Q e s t → Q e s (h₂.read n t).2
  over_write : ∀ e bytes s t, Q e s t → Q e s (h₂.write bytes t).2
  over_note : ∀ e event s t, Q e s t → Q e s (h₂.note event t)

section Follows

variable {h₁ : Handler ε ν σ} {h₂ : Handler ε ν τ} {R : σ → τ → Prop} {Q : ε → σ → τ → Prop}

/-- What the second run still does after the first one is over. -/
theorem Follows.broken (hf : Follows h₁ h₂ R Q) {e : ε} {s : σ} {t : τ} (hq : Q e s t)
    (p : Prog ε ν α) : Q e s (run h₂ p t).2 :=
  run_preserves (fun n t => hf.over_read e n s t) (fun bytes t => hf.over_write e bytes s t)
    (fun event t => hf.over_note e event s t) p t hq

/-- **Runs under a handler that may fail**: they end alike in related states, or the first one is
    over before the second. -/
theorem run_follows (hf : Follows h₁ h₂ R Q) (p : Prog ε ν α) (s : σ) (t : τ) (hst : R s t) :
    Alike R Q (run h₁ p s) (run h₂ p t) := by
  induction p generalizing s t with
  | pure a => exact Or.inl ⟨rfl, hst⟩
  | exit e => exact Or.inl ⟨rfl, hst⟩
  | read n next ih =>
      have hread := hf.read n s t hst
      simp only [run]
      generalize h₁.read n s = o₁ at hread
      generalize h₂.read n t = o₂ at hread
      obtain ⟨r₁, s'⟩ := o₁
      obtain ⟨r₂, t'⟩ := o₂
      rcases hread with ⟨rfl, hst'⟩ | ⟨e, rfl, hq⟩
      · cases r₁ with
        | ok bytes => exact ih bytes s' t' hst'
        | error e => exact Or.inl ⟨rfl, hst'⟩
      · -- the first run is over; the second one goes on without breaking `Q`
        cases r₂ with
        | ok bytes => exact Or.inr ⟨e, rfl, hf.broken hq (next bytes)⟩
        | error _ => exact Or.inr ⟨e, rfl, hq⟩
  | write bytes next ih =>
      have hwrite := hf.write bytes s t hst
      simp only [run]
      generalize h₁.write bytes s = o₁ at hwrite
      generalize h₂.write bytes t = o₂ at hwrite
      obtain ⟨r₁, s'⟩ := o₁
      obtain ⟨r₂, t'⟩ := o₂
      rcases hwrite with ⟨rfl, hst'⟩ | ⟨e, rfl, hq⟩
      · cases r₁ with
        | ok _ => exact ih s' t' hst'
        | error e => exact Or.inl ⟨rfl, hst'⟩
      · cases r₂ with
        | ok _ => exact Or.inr ⟨e, rfl, hf.broken hq next⟩
        | error _ => exact Or.inr ⟨e, rfl, hq⟩
  | note event next ih => exact ih _ _ (hf.note event s t hst)

end Follows

/-! ## A stream that is cut off -/

/-- The mark of a run with more bytes to come. -/
def Mark.behind (w : List UInt8) (m : Mark ν) : Mark ν := { m with unread := m.unread ++ w }

/-- The second stream has the bytes `w` behind those of the first. -/
structure Extended (w : List UInt8) (c d : Stream ν) : Prop where
  inbound_eq : d.inbound = c.inbound ++ w
  outbound_eq : d.outbound = c.outbound
  log_eq : d.log = c.log.map (Mark.behind w)

/-- The first run has used up its stream, and what it did the second one did, too. -/
structure CutOff [ConnectionEnds ε] (w : List UInt8) (e : ε) (c d : Stream ν) : Prop where
  ending_eq : e = ConnectionEnds.short
  inbound_eq : c.inbound = []
  outbound_prefix : c.outbound <+: d.outbound
  log_prefix : c.log.map (Mark.behind w) <+: d.log

/-- **A stream that is cut off** is served like the whole one, up to the first read that asks for
    more than is left. -/
theorem streamHandler_follows [ConnectionEnds ε] (w : List UInt8) :
    Follows (streamHandler : Handler ε ν (Stream ν)) streamHandler (Extended w) (CutOff w) where
  read n c d h := by
    simp only [streamHandler]
    by_cases hn : ConnectionEnds.limit ε ≤ n
    · rw [if_pos hn, if_pos hn]
      exact Or.inl ⟨rfl, h⟩
    rw [if_neg hn, if_neg hn]
    by_cases hlen : n ≤ c.inbound.length
    · have hlen' : n ≤ d.inbound.length := by
        rw [h.inbound_eq, List.length_append]
        omega
      rw [if_pos hlen, if_pos hlen', h.inbound_eq, List.take_append_of_le_length hlen,
        List.drop_append_of_le_length hlen]
      exact Or.inl ⟨rfl, rfl, h.outbound_eq, h.log_eq⟩
    · rw [if_neg hlen]
      refine Or.inr ⟨_, rfl, rfl, rfl, ?_, ?_⟩
      · split_ifs <;> exact h.outbound_eq ▸ List.prefix_refl _
      · split_ifs <;> exact h.log_eq ▸ List.prefix_refl _
  write bytes c d h :=
    Or.inl ⟨rfl, h.inbound_eq, congrArg (· ++ bytes) h.outbound_eq, h.log_eq⟩
  note event c d h := by
    refine ⟨h.inbound_eq, h.outbound_eq, ?_⟩
    simp only [streamHandler, List.map_append, List.map_cons, List.map_nil, h.log_eq, Mark.behind,
      h.inbound_eq, h.outbound_eq]
  over_read e n c d h := by
    simp only [streamHandler]
    split_ifs <;> exact ⟨h.ending_eq, h.inbound_eq, h.outbound_prefix, h.log_prefix⟩
  over_write e bytes c d h :=
    ⟨h.ending_eq, h.inbound_eq, h.outbound_prefix.trans (List.prefix_append ..), h.log_prefix⟩
  over_note e event c d h :=
    ⟨h.ending_eq, h.inbound_eq, h.outbound_prefix, h.log_prefix.trans (List.prefix_append ..)⟩

end StreamProgram
