import CodeTroopers.Library.StreamProgram

set_option autoImplicit false

/-! # Pre- and postconditions of programs over a stream

`Triple P p Q E`: from a state in `P`, the program returns a value in `Q` or ends in `E`. There is
one rule for each way a program is put together, and two for parts that are of one kind only: a part
that only reads takes bytes off the inbound stream which are enough for what it returns (`Reads`),
a part that only writes puts its bytes behind the outbound stream (`Writes`). -/

namespace StreamProgram

variable {ε ν α β : Type} [ConnectionEnds ε]

/-! ## Parts that only read -/

/-- The bytes are what the program consumes when it returns the value, whatever comes behind. -/
def Reads (p : Prog ε ν α) (a : α) (bytes : List UInt8) : Prop :=
  ∀ (c : Stream ν) (rest : List UInt8), c.inbound = bytes ++ rest →
    runStream p c = (.ok a, { c with inbound := rest })

theorem Reads.unique {p : Prog ε ν α} {a b : α} {bytes : List UInt8} (ha : Reads p a bytes)
    (hb : Reads p b bytes) : a = b := by
  have hin : (⟨bytes, [], []⟩ : Stream ν).inbound = bytes ++ [] := (List.append_nil bytes).symm
  have h := (ha _ [] hin).symm.trans (hb _ [] hin)
  exact Except.ok.inj (Prod.mk.inj h).1

theorem Reads.iff_eq {p : Prog ε ν α} {a b : α} {bytes : List UInt8} (ha : Reads p a bytes) :
    Reads p b bytes ↔ b = a := by
  constructor
  · intro hb
    exact hb.unique ha
  · rintro rfl
    exact ha

theorem reads_read {n : ℕ} (hn : n < ConnectionEnds.limit ε) (f : List UInt8 → α)
    {bytes : List UInt8} (hlen : bytes.length = n) :
    Reads (.read n fun bytes => .pure (f bytes) : Prog ε ν α) (f bytes) bytes := by
  intro c rest hin
  have hle : n ≤ c.inbound.length := by
    rw [hin, List.length_append]
    omega
  simp only [runStream, run, streamHandler, if_neg (Nat.not_le.mpr hn), if_pos hle]
  rw [hin, List.take_left' hlen, List.drop_left' hlen]

theorem Reads.run_bind {p : Prog ε ν α} {a : α} {bytes rest : List UInt8} (hp : Reads p a bytes)
    {c : Stream ν} (hin : c.inbound = bytes ++ rest) (f : α → Prog ε ν β) :
    runStream (p.bind f) c = runStream (f a) { c with inbound := rest } :=
  run_bind_of_ok (hp c rest hin) f

/-- A program that only reads looks at nothing but the inbound stream, and changes nothing else. -/
theorem run_onlyReads {gives : ε → Prop} {p : Prog ε ν α} (hp : p.OnlyReads gives) {c d : Stream ν}
    (hin : c.inbound = d.inbound) :
    runStream p c = ((runStream p d).1, { c with inbound := (runStream p d).2.inbound }) := by
  induction p generalizing c d with
  | pure a => simp only [runStream, run_pure, ← hin]
  | exit e => simp only [runStream, run_exit, ← hin]
  | write bytes next _ => exact hp.elim
  | note event next _ => exact hp.elim
  | read n next ih =>
      simp only [runStream, run, streamHandler, hin]
      split_ifs with hn hlen
      · rw [← hin]
      · exact ih _ (hp _) rfl
      · rfl

/-- What a program that only reads returns is decided by the bytes it consumes. -/
theorem reads_of_run {gives : ε → Prop} {p : Prog ε ν α} (hp : p.OnlyReads gives)
    {c c' : Stream ν} {a : α} (h : runStream p c = (.ok a, c')) :
    ∃ bytes, c.inbound = bytes ++ c'.inbound ∧ Reads p a bytes := by
  obtain ⟨bytes, hin, hafter, _⟩ := run_of_prefix hp h (by simp)
  refine ⟨bytes, hin, fun d rest hd => ?_⟩
  rw [run_onlyReads hp (d := { c with inbound := bytes ++ rest }) hd, hafter rest]

theorem suffix_of_run {gives : ε → Prop} {p : Prog ε ν α} (hp : p.OnlyReads gives) (c : Stream ν) :
    ∃ used, c.inbound = used ++ (runStream p c).2.inbound := by
  induction p generalizing c with
  | pure a => exact ⟨[], rfl⟩
  | exit e => exact ⟨[], rfl⟩
  | write bytes next _ => exact hp.elim
  | note event next _ => exact hp.elim
  | read n next ih =>
      simp only [runStream, run, streamHandler]
      split_ifs with hn hlen
      · exact ⟨[], rfl⟩
      · obtain ⟨used, hused⟩ := ih _ (hp (c.inbound.take n)) { c with inbound := c.inbound.drop n }
        refine ⟨c.inbound.take n ++ used, ?_⟩
        rw [List.append_assoc]
        exact (List.take_append_drop n c.inbound).symm.trans
          (congrArg (c.inbound.take n ++ ·) hused)
      · exact ⟨c.inbound, (List.append_nil _).symm⟩

/-- How a program that only reads may end. -/
theorem ending_of_run {gives : ε → Prop} {p : Prog ε ν α} (hp : p.OnlyReads gives)
    {c c' : Stream ν} {e : ε} (h : runStream p c = (.error e, c')) :
    gives e ∨ e = ConnectionEnds.overlong ∨ e = ConnectionEnds.short := by
  induction p generalizing c with
  | pure a => simp at h
  | exit e' =>
      cases h
      exact Or.inl hp
  | write bytes next _ => exact hp.elim
  | note event next _ => exact hp.elim
  | read n next ih =>
      simp only [runStream, run, streamHandler] at h
      split_ifs at h with hn hlen
      · cases h
        exact Or.inr (Or.inl rfl)
      · exact ih _ (hp _) h
      · cases h
        exact Or.inr (Or.inr rfl)

/-! ## Parts that only write -/

/-- The program writes the bytes and does nothing else. -/
def Writes (p : Prog ε ν Unit) (bytes : List UInt8) : Prop :=
  ∀ c : Stream ν, runStream p c = (.ok (), { c with outbound := c.outbound ++ bytes })

theorem writes_write (bytes : List UInt8) :
    Writes (.write bytes (.pure ()) : Prog ε ν Unit) bytes := fun _ => rfl

theorem Writes.unique {p : Prog ε ν Unit} {u v : List UInt8} (hu : Writes p u)
    (hv : Writes p v) : u = v := by
  have h := (hu ⟨[], [], []⟩).symm.trans (hv ⟨[], [], []⟩)
  exact congrArg Stream.outbound (Prod.mk.inj h).2

theorem Writes.iff_eq {p : Prog ε ν Unit} {u v : List UInt8} (hu : Writes p u) :
    Writes p v ↔ v = u := by
  constructor
  · intro hv
    exact hv.unique hu
  · rintro rfl
    exact hu

theorem Writes.bind {p q : Prog ε ν Unit} {u v : List UInt8} (hp : Writes p u)
    (hq : Writes q v) : Writes (p.bind fun _ => q) (u ++ v) := by
  intro c
  rw [runStream, run_bind_of_ok (hp c), ← runStream, hq, List.append_assoc]

/-! ## Triples -/

/-- From `P`, the program returns in `Q` or ends in `E`. -/
def Triple (P : Stream ν → Prop) (p : Prog ε ν α) (Q : α → Stream ν → Prop)
    (E : ε → Stream ν → Prop) : Prop :=
  ∀ c, P c → (∀ a c', runStream p c = (.ok a, c') → Q a c') ∧
    ∀ e c', runStream p c = (.error e, c') → E e c'

section Rules

variable {P P' : Stream ν → Prop} {Q : α → Stream ν → Prop} {R : β → Stream ν → Prop}
  {E : ε → Stream ν → Prop}

theorem Triple.exit {e : ε} (h : ∀ c, P c → E e c) : Triple P (.exit e : Prog ε ν α) Q E := by
  intro c hc
  refine ⟨fun a c' hrun => by simp at hrun, fun e' c' hrun => ?_⟩
  cases hrun
  exact h c hc

/-- A weaker postcondition. -/
theorem Triple.mono {p : Prog ε ν α} {Q' : α → Stream ν → Prop} (h : Triple P p Q E)
    (hpost : ∀ a c, Q a c → Q' a c) : Triple P p Q' E :=
  fun c hc => ⟨fun a c' hrun => hpost a c' ((h c hc).1 a c' hrun), (h c hc).2⟩

/-- Noting an event. -/
theorem Triple.note {event : ν} {Q : Unit → Stream ν → Prop}
    (h : ∀ c, P c → Q () { c with log := c.log ++ [⟨event, c.inbound, c.outbound⟩] }) :
    Triple P (.note event (.pure ()) : Prog ε ν Unit) Q E := by
  intro c hc
  refine ⟨fun a c' hrun => ?_, fun e c' hrun => by simp [runStream, run] at hrun⟩
  cases hrun
  exact h c hc

/-- Sequencing. -/
theorem Triple.bind {p : Prog ε ν β} {f : β → Prog ε ν α} (hp : Triple P p R E)
    (hf : ∀ b, Triple (R b) (f b) Q E) : Triple P (p.bind f) Q E := by
  intro c hc
  refine ⟨fun a c' hrun => ?_, fun e c' hrun => ?_⟩
  · obtain ⟨b, c₁, hfirst, hsecond⟩ := (run_bind_eq_ok_iff ..).mp hrun
    exact (hf b c₁ ((hp c hc).1 b c₁ hfirst)).1 a c' hsecond
  · rcases (run_bind_eq_error_iff ..).mp hrun with hfirst | ⟨b, c₁, hfirst, hsecond⟩
    · exact (hp c hc).2 e c' hfirst
    · exact (hf b c₁ ((hp c hc).1 b c₁ hfirst)).2 e c' hsecond

/-- A part that only reads. -/
theorem Triple.reads {gives : ε → Prop} {p : Prog ε ν α} (hp : p.OnlyReads gives)
    (hok : ∀ c a bytes rest, P c → Reads p a bytes → c.inbound = bytes ++ rest →
      Q a { c with inbound := rest })
    (herror : ∀ c e used rest, P c → c.inbound = used ++ rest →
      gives e ∨ e = ConnectionEnds.overlong ∨ e = ConnectionEnds.short →
        E e { c with inbound := rest }) : Triple P p Q E := by
  intro c hc
  -- the run leaves the outbound stream and the notes as they are
  have hframe := run_onlyReads hp (c := c) (d := c) rfl
  refine ⟨fun a c' hrun => ?_, fun e c' hrun => ?_⟩
  · obtain ⟨bytes, hin, hreads⟩ := reads_of_run hp hrun
    rw [hrun] at hframe
    rw [(Prod.mk.inj hframe).2]
    exact hok c a bytes c'.inbound hc hreads hin
  · obtain ⟨used, hin⟩ := suffix_of_run hp c
    rw [hrun] at hframe hin
    rw [(Prod.mk.inj hframe).2]
    exact herror c e used c'.inbound hc hin (ending_of_run hp hrun)

/-- A part that only writes. -/
theorem Triple.writes {p : Prog ε ν Unit} {bytes : List UInt8} {Q : Unit → Stream ν → Prop}
    (hp : Writes p bytes) (h : ∀ c, P c → Q () { c with outbound := c.outbound ++ bytes }) :
    Triple P p Q E := by
  intro c hc
  rw [hp c]
  refine ⟨fun a c' hrun => ?_, fun e c' hrun => by simp at hrun⟩
  cases hrun
  exact h c hc

end Rules

end StreamProgram
