import CodeTroopers.Library.StreamProgram
import Mathlib.Data.List.Forall2
import Mathlib.Data.List.Flatten

set_option autoImplicit false

/-! # Wire formats and the programs that parse them

A format relates a value to the bytes that spell it. Most bytes are determined by the value; a
boolean is spelled by zero or by any other byte. `WireByte` is one position of a message, `Spells`
the relation of a message to the bytes on the wire, and a format is a relation between a value and
its messages.

`Parses Bad p E` says all there is to say about a program that only reads: it returns `a` exactly if
the inbound stream begins with a spelling of a message `E` gives for `a`, and then consumes just
that; if it gives up, either the stream has ended, or the last bytes it consumed are a violation in
the sense of `Bad`. The rules derive this for a program from its parts; `run_of_prefix` adds that
the violation is the first one, since the program has nothing against any shorter prefix. -/

namespace WireFormat

open StreamProgram

/-- One position of a message: a byte, or a boolean that is true on every byte but zero. -/
inductive WireByte where
  | exact (b : UInt8)
  | flag (v : Bool)
deriving DecidableEq

/-- The byte spells the position. -/
def WireByte.Accepts : WireByte → UInt8 → Prop
  | .exact b, c => c = b
  | .flag v, c => decide (c ≠ 0) = v

/-- The byte a writer chooses. -/
def WireByte.canonical : WireByte → UInt8
  | .exact b => b
  | .flag v => if v then 1 else 0

/-- The bytes spell the message. -/
def Spells (message : List WireByte) (bytes : List UInt8) : Prop :=
  List.Forall₂ WireByte.Accepts message bytes

/-- The bytes a writer puts on the wire. -/
def canonical (message : List WireByte) : List UInt8 := message.map WireByte.canonical

theorem WireByte.accepts_canonical (w : WireByte) : w.Accepts w.canonical := by
  cases w with
  | exact b => rfl
  | flag v => cases v <;> rfl

theorem spells_canonical (message : List WireByte) : Spells message (canonical message) := by
  induction message with
  | nil => exact List.Forall₂.nil
  | cons w message ih => exact List.Forall₂.cons w.accepts_canonical ih

theorem Spells.length_eq {message : List WireByte} {bytes : List UInt8}
    (h : Spells message bytes) : message.length = bytes.length :=
  List.Forall₂.length_eq h

@[simp] theorem spells_nil_iff (bytes : List UInt8) : Spells [] bytes ↔ bytes = [] :=
  List.forall₂_nil_left_iff

theorem Spells.append {m₁ m₂ : List WireByte} {u₁ u₂ : List UInt8} (h₁ : Spells m₁ u₁)
    (h₂ : Spells m₂ u₂) : Spells (m₁ ++ m₂) (u₁ ++ u₂) :=
  List.rel_append h₁ h₂

/-- The spellings of a sequence of messages are the sequences of their spellings. -/
theorem spells_append_iff (m₁ m₂ : List WireByte) (bytes : List UInt8) :
    Spells (m₁ ++ m₂) bytes ↔ ∃ u₁ u₂, Spells m₁ u₁ ∧ Spells m₂ u₂ ∧ bytes = u₁ ++ u₂ := by
  constructor
  · intro h
    refine ⟨bytes.take m₁.length, bytes.drop m₁.length, ?_, ?_, (List.take_append_drop _ _).symm⟩
    · exact (List.forall₂_take_append bytes m₁ m₂ h.flip).flip
    · exact (List.forall₂_drop_append bytes m₁ m₂ h.flip).flip
  · intro h
    obtain ⟨u₁, u₂, h₁, h₂, rfl⟩ := h
    exact h₁.append h₂

@[simp] theorem spells_map_exact_iff (bs bytes : List UInt8) :
    Spells (bs.map .exact) bytes ↔ bytes = bs := by
  induction bs generalizing bytes with
  | nil => simp
  | cons b bs ih =>
      constructor
      · intro h
        rcases h with _ | ⟨rfl, h⟩
        rw [(ih _).mp h]
      · rintro rfl
        exact List.Forall₂.cons rfl ((ih bs).mpr rfl)

/-- What a row of bytes spells as booleans is determined by the bytes. -/
@[simp] theorem spells_map_flag_iff (vs : List Bool) (bytes : List UInt8) :
    Spells (vs.map .flag) bytes ↔ vs = bytes.map fun b => decide (b ≠ 0) := by
  induction vs generalizing bytes with
  | nil => cases bytes <;> simp [Spells]
  | cons v vs ih =>
      cases bytes with
      | nil => simp [Spells]
      | cons b bytes =>
          rw [List.map_cons, List.map_cons, List.cons.injEq, ← ih bytes, Spells,
            List.forall₂_cons, ← Spells, WireByte.Accepts, eq_comm]

/-- The bytes are what a writer puts on the wire, except that a true boolean may be any byte but
    zero. -/
structure Rewrites (message : List WireByte) (bytes : List UInt8) : Prop where
  length_eq : (canonical message).length = bytes.length
  byte : ∀ i : ℕ, (canonical message)[i]? = bytes[i]? ∨
    (message[i]? = some (.flag true) ∧ (canonical message)[i]? = some 1 ∧ ∃ b ∈ bytes[i]?, b ≠ 0)

theorem Spells.rewrites {message : List WireByte} {bytes : List UInt8}
    (h : Spells message bytes) : Rewrites message bytes where
  length_eq := by rw [canonical, List.length_map, h.length_eq]
  byte i := by
    induction h generalizing i with
    | nil => exact Or.inl rfl
    | @cons w b message bytes hw _ ih =>
        cases i with
        | succ i => exact ih i
        | zero =>
            -- only a true boolean leaves its byte open
            cases w with
            | exact c => exact Or.inl (by rw [show b = c from hw]; rfl)
            | flag v =>
                cases v with
                | true => exact Or.inr ⟨rfl, rfl, b, rfl, of_decide_eq_true hw⟩
                | false =>
                    have hb : b = 0 := by simpa using of_decide_eq_false hw
                    exact Or.inl (by rw [hb]; rfl)

/-! ## Programs that only read -/

variable {ε ν α β : Type} [ConnectionEnds ε]

/-- A format. -/
abbrev Format (α : Type) := α → List WireByte → Prop

/-- A value in one format followed by a value in a format that depends on it. -/
def Format.seq (E : Format α) (F : α → Format β) : Format β := fun b message =>
  ∃ a m₁ m₂, E a m₁ ∧ F a b m₂ ∧ message = m₁ ++ m₂

/-- The program parses the format, and what it gives up on is a violation. -/
structure Parses (Bad : ε → List UInt8 → Prop) (p : Prog ε ν α) (E : Format α) : Prop where
  accepts : ∀ (c c' : Stream ν) (a : α), runStream p c = (.ok a, c') ↔
    ∃ message bytes rest, E a message ∧ Spells message bytes ∧ c.inbound = bytes ++ rest ∧
      c' = { c with inbound := rest }
  rejects : ∀ (c c' : Stream ν) (e : ε), runStream p c = (.error e, c') →
    c' = { c with inbound := c'.inbound } ∧
      ((e = ConnectionEnds.short ∧ c'.inbound = []) ∨
        ∃ before token, c.inbound = before ++ token ++ c'.inbound ∧ Bad e token)

section Rules

variable {Bad : ε → List UInt8 → Prop}

/-- A format may be exchanged for one with the same spellings. -/
theorem Parses.congr_spells {p : Prog ε ν α} {E E' : Format α} (h : Parses Bad p E)
    (heq : ∀ a bytes, (∃ message, E a message ∧ Spells message bytes) ↔
      ∃ message, E' a message ∧ Spells message bytes) : Parses Bad p E' where
  accepts c c' a := by
    rw [h.accepts]
    constructor
    · intro h
      obtain ⟨m, bytes, rest, hE, hsp, hin, hc⟩ := h
      obtain ⟨m', hE', hsp'⟩ := (heq a bytes).mp ⟨m, hE, hsp⟩
      exact ⟨m', bytes, rest, hE', hsp', hin, hc⟩
    · intro h
      obtain ⟨m', bytes, rest, hE', hsp', hin, hc⟩ := h
      obtain ⟨m, hE, hsp⟩ := (heq a bytes).mpr ⟨m', hE', hsp'⟩
      exact ⟨m, bytes, rest, hE, hsp, hin, hc⟩
  rejects := h.rejects

theorem Parses.congr {p : Prog ε ν α} {E E' : Format α} (h : Parses Bad p E)
    (heq : ∀ a message, E a message ↔ E' a message) : Parses Bad p E' :=
  h.congr_spells fun a _ => exists_congr fun m => and_congr_left' (heq a m)

theorem Parses.mono {Bad' : ε → List UInt8 → Prop} {p : Prog ε ν α} {E : Format α}
    (h : Parses Bad p E) (hsub : ∀ e token, Bad e token → Bad' e token) : Parses Bad' p E where
  accepts := h.accepts
  rejects c c' e hrun := by
    obtain ⟨hframe, hcase⟩ := h.rejects c c' e hrun
    refine ⟨hframe, hcase.imp id ?_⟩
    intro h
    obtain ⟨before, token, hin, hbad⟩ := h
    exact ⟨before, token, hin, hsub e token hbad⟩

theorem parses_pure (a : α) :
    Parses Bad (.pure a : Prog ε ν α) fun b message => b = a ∧ message = [] where
  accepts c c' b := by
    simp only [run_pure, Prod.mk.injEq, Except.ok.injEq]
    constructor
    · intro h
      obtain ⟨rfl, rfl⟩ := h
      exact ⟨[], [], c.inbound, ⟨rfl, rfl⟩, (spells_nil_iff []).mpr rfl, rfl, rfl⟩
    · intro h
      obtain ⟨_, bytes, rest, ⟨rfl, rfl⟩, hsp, hin, rfl⟩ := h
      rw [spells_nil_iff] at hsp
      subst hsp
      rw [List.nil_append] at hin
      exact ⟨rfl, by rw [← hin]⟩
  rejects c c' e h := by simp at h

theorem parses_read (n : ℕ) (hn : n < ConnectionEnds.limit ε) :
    Parses Bad (.read n .pure : Prog ε ν (List UInt8)) fun bytes message =>
      bytes.length = n ∧ message = bytes.map .exact where
  accepts c c' bytes := by
    simp only [runStream, run, streamHandler, if_neg (Nat.not_le.mpr hn)]
    split_ifs with hlen
    · simp only [Prod.mk.injEq, Except.ok.injEq]
      constructor
      · intro h
        obtain ⟨rfl, rfl⟩ := h
        refine ⟨_, c.inbound.take n, c.inbound.drop n, ⟨by simp [hlen], rfl⟩,
          (spells_map_exact_iff _ _).mpr rfl, (List.take_append_drop n _).symm, rfl⟩
      · intro h
        obtain ⟨_, u, rest, ⟨hu, rfl⟩, hsp, hin, rfl⟩ := h
        rw [spells_map_exact_iff] at hsp
        subst hsp
        rw [hin, ← hu]
        simp
    · simp only [Prod.mk.injEq, reduceCtorEq, false_and, false_iff]
      intro h
      obtain ⟨_, u, rest, ⟨hu, rfl⟩, hsp, hin, _⟩ := h
      rw [spells_map_exact_iff] at hsp
      subst hsp
      rw [hin, List.length_append] at hlen
      omega
  rejects c c' e h := by
    simp only [runStream, run, streamHandler, if_neg (Nat.not_le.mpr hn)] at h
    split_ifs at h with hlen
    · simp at h
    · simp only [Prod.mk.injEq, Except.error.injEq] at h
      obtain ⟨rfl, rfl⟩ := h
      exact ⟨rfl, Or.inl ⟨rfl, rfl⟩⟩

/-- The program gives up at once. -/
def GivesUp (p : Prog ε ν α) (e : ε) : Prop := ∀ c : Stream ν, runStream p c = (.error e, c)

theorem givesUp_exit (e : ε) : GivesUp (.exit e : Prog ε ν α) e := fun _ => rfl

theorem givesUp_read {n : ℕ} (hn : ConnectionEnds.limit ε ≤ n)
    (next : List UInt8 → Prog ε ν α) : GivesUp (.read n next) (ConnectionEnds.overlong : ε) := by
  intro c
  simp only [runStream, run, streamHandler, if_pos hn]

/-- **Reading, checking, reading on.** The second program may depend on the value read; on a value
    that does not pass the check it must give up with a violation. -/
theorem Parses.check {p : Prog ε ν α} {E : Format α} (hp : Parses Bad p E) (ok : α → Prop)
    {f : α → Prog ε ν β} {F : α → Format β}
    (hf : ∀ a message, E a message → ok a → Parses Bad (f a) (F a))
    (hbad : ∀ a message bytes, E a message → Spells message bytes → ¬ ok a →
      ∃ e, GivesUp (f a) e ∧ Bad e bytes) :
    Parses Bad (p.bind f) (Format.seq (fun a message => E a message ∧ ok a) F) where
  accepts c c' b := by
    rw [run_bind_eq_ok_iff]
    constructor
    · intro h
      obtain ⟨a, c₁, hrun, hrun'⟩ := h
      obtain ⟨m₁, u₁, rest₁, hE, hsp₁, hin, rfl⟩ := (hp.accepts _ _ _).mp hrun
      -- a value that does not pass the check cannot have led to a result
      by_cases hok : ok a
      · obtain ⟨m₂, u₂, rest, hF, hsp₂, hin', rfl⟩ := ((hf a m₁ hE hok).accepts _ _ _).mp hrun'
        refine ⟨m₁ ++ m₂, u₁ ++ u₂, rest, ⟨a, m₁, m₂, ⟨hE, hok⟩, hF, rfl⟩, hsp₁.append hsp₂, ?_,
          rfl⟩
        rw [hin, show rest₁ = u₂ ++ rest from hin', List.append_assoc]
      · obtain ⟨e, hexit, _⟩ := hbad a m₁ u₁ hE hsp₁ hok
        have := (hexit _).symm.trans hrun'
        simp at this
    · intro h
      obtain ⟨_, u, rest, ⟨a, m₁, m₂, ⟨hE, hok⟩, hF, rfl⟩, hsp, hin, rfl⟩ := h
      obtain ⟨u₁, u₂, hsp₁, hsp₂, rfl⟩ := (spells_append_iff _ _ _).mp hsp
      refine ⟨a, { c with inbound := u₂ ++ rest }, ?_, ?_⟩
      · exact (hp.accepts _ _ _).mpr ⟨m₁, u₁, _, hE, hsp₁, by rw [hin, List.append_assoc], rfl⟩
      · exact ((hf a m₁ hE hok).accepts _ _ _).mpr ⟨m₂, u₂, rest, hF, hsp₂, rfl, rfl⟩
  rejects c c' e h := by
    rcases (run_bind_eq_error_iff ..).mp h with h | ⟨a, c₁, hrun, hrun'⟩
    · exact hp.rejects c c' e h
    · obtain ⟨m₁, u₁, rest₁, hE, hsp₁, hin, rfl⟩ := (hp.accepts _ _ _).mp hrun
      -- a violation is met in the second part, or it is the value that did not pass
      by_cases hok : ok a
      · obtain ⟨hframe, hcase⟩ := (hf a m₁ hE hok).rejects _ _ _ hrun'
        refine ⟨hframe, hcase.imp id ?_⟩
        intro h
        obtain ⟨before, token, hin', hbad'⟩ := h
        refine ⟨u₁ ++ before, token, ?_, hbad'⟩
        rw [hin, show rest₁ = before ++ token ++ c'.inbound from hin']
        simp
      · obtain ⟨e', hexit, hbad'⟩ := hbad a m₁ u₁ hE hsp₁ hok
        have hres := (hexit _).symm.trans hrun'
        rw [Prod.mk.injEq, Except.error.injEq] at hres
        obtain ⟨rfl, rfl⟩ := hres
        exact ⟨rfl, Or.inr ⟨[], u₁, hin, hbad'⟩⟩

/-- Reading and reading on, without a check. -/
theorem Parses.bind {p : Prog ε ν α} {E : Format α} (hp : Parses Bad p E) {f : α → Prog ε ν β}
    {F : α → Format β} (hf : ∀ a message, E a message → Parses Bad (f a) (F a)) :
    Parses Bad (p.bind f) (E.seq F) := by
  refine (hp.check (fun _ => True) (fun a m hE _ => hf a m hE) ?_).congr ?_
  · exact fun _ _ _ _ _ hnot => absurd trivial hnot
  · simp [Format.seq]

/-! ## Functional formats -/

/-- The format that gives each valid value one message. -/
def Format.of (valid : α → Prop) (encode : α → List WireByte) : Format α := fun a message =>
  valid a ∧ message = encode a

theorem Format.seq_of_iff (valid : α → Prop) (encode : α → List WireByte) (F : α → Format β)
    (b : β) (message : List WireByte) :
    (Format.of valid encode).seq F b message ↔
      ∃ a, valid a ∧ ∃ rest, F a b rest ∧ message = encode a ++ rest := by
  constructor
  · intro h
    obtain ⟨a, _, rest, ⟨hvalid, rfl⟩, hF, hm⟩ := h
    exact ⟨a, hvalid, rest, hF, hm⟩
  · intro h
    obtain ⟨a, hvalid, rest, hF, hm⟩ := h
    exact ⟨a, _, rest, ⟨hvalid, rfl⟩, hF, hm⟩

/-- Reading a value in a functional format and reading on. -/
theorem Parses.bind_of {p : Prog ε ν α} {valid : α → Prop} {encode : α → List WireByte}
    (hp : Parses Bad p (Format.of valid encode)) {f : α → Prog ε ν β} {F : α → Format β}
    (hf : ∀ a, valid a → Parses Bad (f a) (F a)) :
    Parses Bad (p.bind f) fun b message =>
      ∃ a, valid a ∧ ∃ rest, F a b rest ∧ message = encode a ++ rest :=
  (hp.bind fun a _ hE => hf a hE.1).congr (Format.seq_of_iff valid encode F)

/-- Reading a value in a functional format, checking it and reading on. -/
theorem Parses.check_of {p : Prog ε ν α} {valid : α → Prop} {encode : α → List WireByte}
    (hp : Parses Bad p (Format.of valid encode)) (ok : α → Prop) {f : α → Prog ε ν β}
    {F : α → Format β} (hf : ∀ a, valid a → ok a → Parses Bad (f a) (F a))
    (hbad : ∀ a bytes, valid a → Spells (encode a) bytes → ¬ ok a →
      ∃ e, GivesUp (f a) e ∧ Bad e bytes) :
    Parses Bad (p.bind f) fun b message =>
      ∃ a, (valid a ∧ ok a) ∧ ∃ rest, F a b rest ∧ message = encode a ++ rest := by
  refine (hp.check ok (fun a _ hE hok => hf a hE.1 hok) ?_).congr fun b message => ?_
  · rintro a _ bytes ⟨hvalid, rfl⟩ hsp hok
    exact hbad a bytes hvalid hsp hok
  · constructor
    · intro h
      obtain ⟨a, _, rest, ⟨⟨hvalid, rfl⟩, hok⟩, hF, hm⟩ := h
      exact ⟨a, ⟨hvalid, hok⟩, rest, hF, hm⟩
    · intro h
      obtain ⟨a, ⟨hvalid, hok⟩, rest, hF, hm⟩ := h
      exact ⟨a, _, rest, ⟨⟨hvalid, rfl⟩, hok⟩, hF, hm⟩

/-- A loop parses the values one after the other. -/
theorem Parses.collect {p : Prog ε ν α} {valid : α → Prop} {encode : α → List WireByte}
    (hp : Parses Bad p (Format.of valid encode)) (n : ℕ) :
    Parses Bad (p.collect n)
      (Format.of (fun as => as.length = n ∧ ∀ a ∈ as, valid a) fun as => as.flatMap encode) := by
  induction n with
  | zero =>
      refine (parses_pure []).congr ?_
      intro as message
      constructor
      · intro h
        obtain ⟨rfl, rfl⟩ := h
        exact ⟨⟨rfl, by simp⟩, rfl⟩
      · intro h
        obtain ⟨⟨hlen, _⟩, rfl⟩ := h
        rw [List.length_eq_zero_iff] at hlen
        subst hlen
        exact ⟨rfl, rfl⟩
  | succ n ih =>
      refine (hp.bind_of fun a _ => ih.bind_of fun rest _ => parses_pure (a :: rest)).congr ?_
      intro as message
      constructor
      · intro h
        obtain ⟨a, ha, _, ⟨rest, ⟨hlen, hrest⟩, _, ⟨rfl, rfl⟩, rfl⟩, rfl⟩ := h
        exact ⟨⟨by simp [hlen], List.forall_mem_cons.mpr ⟨ha, hrest⟩⟩, by simp⟩
      · intro h
        obtain ⟨⟨hlen, hvalid⟩, rfl⟩ := h
        cases as with
        | nil => simp at hlen
        | cons a rest =>
            rw [List.forall_mem_cons] at hvalid
            exact ⟨a, hvalid.1, _, ⟨rest, ⟨by simpa using hlen, hvalid.2⟩, _, ⟨rfl, rfl⟩, rfl⟩,
              by simp⟩

/-- Reading off the functional format a derivation has arrived at. -/
theorem Parses.congr_of {p : Prog ε ν α} {E : Format α} (h : Parses Bad p E)
    {valid : α → Prop} {encode : α → List WireByte}
    (hto : ∀ a message, E a message → valid a ∧ message = encode a)
    (hfrom : ∀ a, valid a → E a (encode a)) : Parses Bad p (Format.of valid encode) := by
  refine h.congr fun a message => ⟨hto a message, ?_⟩
  intro h
  obtain ⟨hvalid, rfl⟩ := h
  exact hfrom a hvalid

/-! ## Records -/

/-- The format of a record as the sequence of its fields. The index stands for what is on the wire
    but not kept in the record. -/
def Format.fields {ι : Type} (valid : ι → β → Prop) (message : ι → β → List (List WireByte)) :
    Format β := fun b bytes => ∃ i, valid i b ∧ bytes = (message i b).flatten

/-- Reading a field of a record and reading on. The rest of the program parses the records whose
    field is the one read. -/
theorem Parses.field {ι : Type} {p : Prog ε ν α} {valid : α → Prop} {encode : α → List WireByte}
    (hp : Parses Bad p (Format.of valid encode)) (key : β → α) {f : α → Prog ε ν β}
    {P : ι → β → Prop} {rest : ι → β → List (List WireByte)}
    (hkey : ∀ i b, P i b → valid (key b))
    (hf : ∀ a, valid a → Parses Bad (f a) (Format.fields (fun i b => P i b ∧ key b = a) rest)) :
    Parses Bad (p.bind f) (Format.fields P fun i b => encode (key b) :: rest i b) := by
  refine (hp.bind_of hf).congr ?_
  intro b message
  constructor
  · intro h
    obtain ⟨_, _, _, ⟨i, ⟨hP, rfl⟩, rfl⟩, rfl⟩ := h
    exact ⟨i, hP, rfl⟩
  · intro h
    obtain ⟨i, hP, rfl⟩ := h
    exact ⟨key b, hkey i b hP, _, ⟨i, ⟨hP, rfl⟩, rfl⟩, rfl⟩

/-- Reading a field that may have any value. -/
theorem Parses.anyField {ι : Type} {p : Prog ε ν α} {encode : α → List WireByte}
    (hp : Parses Bad p (Format.of (fun _ => True) encode)) (key : β → α) {f : α → Prog ε ν β}
    {P : ι → β → Prop} {rest : ι → β → List (List WireByte)}
    (hf : ∀ a, Parses Bad (f a) (Format.fields (fun i b => P i b ∧ key b = a) rest)) :
    Parses Bad (p.bind f) (Format.fields P fun i b => encode (key b) :: rest i b) :=
  hp.field key (fun _ _ _ => trivial) fun a _ => hf a

theorem parses_record {b : β} {P : Unit → β → Prop} (h : ∀ b', P () b' ↔ b' = b) :
    Parses Bad (.pure b : Prog ε ν β) (Format.fields P fun _ _ => []) := by
  refine (parses_pure b).congr ?_
  intro b' message
  constructor
  · rintro ⟨hb, rfl⟩
    exact ⟨(), (h b').mpr hb, rfl⟩
  · intro h
    obtain ⟨_, hP, rfl⟩ := h
    exact ⟨(h b').mp hP, rfl⟩

/-- Reading the last field of a record, in a format that has the index too. -/
theorem Parses.lastField {ι : Type} {p : Prog ε ν α} {valid : ι → α → Prop}
    {encode : ι → α → List WireByte}
    (hp : Parses Bad p fun a bytes => ∃ i, valid i a ∧ bytes = encode i a) (key : β → α)
    {record : α → β} {P : ι → β → Prop} (hkey : ∀ a, key (record a) = a)
    (hP : ∀ i b, P i b ↔ valid i (key b) ∧ b = record (key b)) :
    Parses Bad (p.bind fun a => .pure (record a))
      (Format.fields P fun i b => [encode i (key b)]) := by
  refine (hp.bind fun a _ _ => parses_pure (record a)).congr ?_
  intro b message
  constructor
  · intro h
    obtain ⟨a, _, _, ⟨i, hvalid, rfl⟩, ⟨rfl, rfl⟩, rfl⟩ := h
    refine ⟨i, (hP i _).mpr ?_, ?_⟩
    · rw [hkey]
      exact ⟨hvalid, rfl⟩
    · show encode i a ++ [] = encode i (key (record a)) ++ []
      rw [hkey]
  · intro h
    obtain ⟨i, hPb, rfl⟩ := h
    obtain ⟨hvalid, hb⟩ := (hP i b).mp hPb
    exact ⟨key b, _, [], ⟨i, hvalid, rfl⟩, ⟨hb, rfl⟩, rfl⟩

/-- A record without an index is in a functional format. -/
theorem Parses.of_fields {p : Prog ε ν β} {valid : β → Prop} {message : β → List (List WireByte)}
    (h : Parses Bad p (Format.fields (fun _ : Unit => valid) fun _ => message)) :
    Parses Bad p (Format.of valid fun b => (message b).flatten) := by
  refine h.congr_of ?_ fun b hb => ⟨(), hb, rfl⟩
  intro b _ h
  obtain ⟨_, hb, rfl⟩ := h
  exact ⟨hb, rfl⟩

end Rules

end WireFormat
