import Mathlib.Data.Nat.Notation
import Mathlib.Tactic.SplitIfs

set_option autoImplicit false

/-! # Programs over a byte stream connection

`Prog` is the syntax of a sequential program that reads a given number of bytes, writes bytes, or
gives up; `note` marks a point of the run with an observation and does nothing else. A `Handler`
says what reading and writing do to a state, and `run` runs a program under a handler.

The reference handler is `streamHandler`: reading takes exactly the next bytes of the inbound
stream, or consumes what is left and ends the program if there are not enough; writing appends to
the outbound stream; a note is logged with both streams of that moment.

What a program that only reads has consumed decides its run (`run_of_prefix`). -/

namespace StreamProgram

variable {ε ν α β γ σ τ : Type}

/-- A program with endings `ε`, observations `ν` and result `α`. -/
inductive Prog (ε ν α : Type) where
  | pure (a : α)
  | exit (e : ε)
  | read (n : ℕ) (next : List UInt8 → Prog ε ν α)
  | write (bytes : List UInt8) (next : Prog ε ν α)
  | note (event : ν) (next : Prog ε ν α)

namespace Prog

/-- Sequencing. -/
def bind : Prog ε ν α → (α → Prog ε ν β) → Prog ε ν β
  | .pure a, f => f a
  | .exit e, _ => .exit e
  | .read n next, f => .read n fun bytes => (next bytes).bind f
  | .write bytes next, f => .write bytes (next.bind f)
  | .note event next, f => .note event (next.bind f)

instance : Monad (Prog ε ν) where
  pure := .pure
  bind := bind

@[simp] theorem bind_eq (p : Prog ε ν α) (f : α → Prog ε ν β) : p >>= f = p.bind f := rfl

@[simp] theorem pure_eq (a : α) : (Pure.pure a : Prog ε ν α) = .pure a := rfl

@[simp] theorem pure_bind (a : α) (f : α → Prog ε ν β) : (Prog.pure a).bind f = f a := rfl

@[simp] theorem exit_bind (e : ε) (f : α → Prog ε ν β) : (Prog.exit e).bind f = .exit e := rfl

theorem bind_assoc (p : Prog ε ν α) (f : α → Prog ε ν β) (k : β → Prog ε ν γ) :
    (p.bind f).bind k = p.bind fun a => (f a).bind k := by
  induction p with
  | pure a => rfl
  | exit e => rfl
  | read n next ih => simp only [bind, ih]
  | write bytes next ih => simp only [bind, ih]
  | note event next ih => simp only [bind, ih]

/-- A loop that runs a program a number of times and collects the results. -/
def collect (p : Prog ε ν α) : ℕ → Prog ε ν (List α)
  | 0 => .pure []
  | n + 1 => do
    let a ← p
    let rest ← p.collect n
    .pure (a :: rest)

/-- The program neither writes nor notes anything, and gives up only in one of the given ways. -/
def OnlyReads (gives : ε → Prop) : Prog ε ν α → Prop
  | .pure _ => True
  | .exit e => gives e
  | .read _ next => ∀ bytes, (next bytes).OnlyReads gives
  | .write _ _ => False
  | .note _ _ => False

theorem OnlyReads.bind {gives : ε → Prop} {p : Prog ε ν α} {f : α → Prog ε ν β}
    (hp : p.OnlyReads gives) (hf : ∀ a, (f a).OnlyReads gives) : (p.bind f).OnlyReads gives := by
  induction p with
  | pure a => exact hf a
  | exit e => exact hp
  | read n next ih => exact fun bytes => ih bytes (hp bytes)
  | write bytes next _ => exact hp.elim
  | note event next _ => exact hp.elim

theorem OnlyReads.collect {gives : ε → Prop} {p : Prog ε ν α} (hp : p.OnlyReads gives) (n : ℕ) :
    (p.collect n).OnlyReads gives := by
  induction n with
  | zero => trivial
  | succ n ih => exact hp.bind fun a => ih.bind fun rest => trivial

end Prog

/-! ## Running a program -/

/-- What the operations do to a state. -/
structure Handler (ε ν σ : Type) where
  read : ℕ → σ → Except ε (List UInt8) × σ
  write : List UInt8 → σ → Except ε Unit × σ
  note : ν → σ → σ

/-- The run of a program: its result or its ending, and the state it leaves. -/
def run (h : Handler ε ν σ) : Prog ε ν α → σ → Except ε α × σ
  | .pure a, s => (.ok a, s)
  | .exit e, s => (.error e, s)
  | .read n next, s =>
    match h.read n s with
    | (.ok bytes, s) => run h (next bytes) s
    | (.error e, s) => (.error e, s)
  | .write bytes next, s =>
    match h.write bytes s with
    | (.ok _, s) => run h next s
    | (.error e, s) => (.error e, s)
  | .note event next, s => run h next (h.note event s)

@[simp] theorem run_pure (h : Handler ε ν σ) (a : α) (s : σ) :
    run h (.pure a : Prog ε ν α) s = (.ok a, s) := rfl

@[simp] theorem run_exit (h : Handler ε ν σ) (e : ε) (s : σ) :
    run h (.exit e : Prog ε ν α) s = (.error e, s) := rfl

theorem run_bind (h : Handler ε ν σ) (p : Prog ε ν α) (f : α → Prog ε ν β) (s : σ) :
    run h (p.bind f) s =
      match run h p s with
      | (.ok a, s) => run h (f a) s
      | (.error e, s) => (.error e, s) := by
  induction p generalizing s with
  | pure a => rfl
  | exit e => rfl
  | read n next ih =>
      simp only [Prog.bind, run]
      rcases h.read n s with ⟨_ | bytes, s'⟩
      · rfl
      · exact ih bytes s'
  | write bytes next ih =>
      simp only [Prog.bind, run]
      rcases h.write bytes s with ⟨_ | _, s'⟩
      · rfl
      · exact ih s'
  | note event next ih =>
      simp only [Prog.bind, run]
      exact ih _

theorem run_bind_of_ok {h : Handler ε ν σ} {p : Prog ε ν α} {s s' : σ} {a : α}
    (hp : run h p s = (.ok a, s')) (f : α → Prog ε ν β) :
    run h (p.bind f) s = run h (f a) s' := by
  rw [run_bind, hp]

theorem run_bind_eq_ok_iff (h : Handler ε ν σ) (p : Prog ε ν α) (f : α → Prog ε ν β) (s s' : σ)
    (b : β) :
    run h (p.bind f) s = (.ok b, s')
      ↔ ∃ a s₁, run h p s = (.ok a, s₁) ∧ run h (f a) s₁ = (.ok b, s') := by
  rw [run_bind]
  rcases run h p s with ⟨_ | a, s₁⟩
  · simp
  · simp [and_assoc]

theorem run_bind_eq_error_iff (h : Handler ε ν σ) (p : Prog ε ν α) (f : α → Prog ε ν β) (s s' : σ)
    (e : ε) :
    run h (p.bind f) s = (.error e, s')
      ↔ run h p s = (.error e, s') ∨
        ∃ a s₁, run h p s = (.ok a, s₁) ∧ run h (f a) s₁ = (.error e, s') := by
  rw [run_bind]
  rcases run h p s with ⟨_ | a, s₁⟩
  · simp
  · simp [and_assoc]

/-! ## What a run keeps -/

/-- A property of the state that every operation keeps is kept by whole runs. -/
theorem run_preserves {h : Handler ε ν σ} {P : σ → Prop}
    (hread : ∀ n s, P s → P (h.read n s).2) (hwrite : ∀ bytes s, P s → P (h.write bytes s).2)
    (hnote : ∀ event s, P s → P (h.note event s)) (p : Prog ε ν α) (s : σ) (hs : P s) :
    P (run h p s).2 := by
  induction p generalizing s with
  | pure a => exact hs
  | exit e => exact hs
  | read n next ih =>
      have hs' := hread n s hs
      simp only [run]
      generalize h.read n s = r at hs'
      rcases r with ⟨_ | bytes, s'⟩
      · exact hs'
      · exact ih bytes s' hs'
  | write bytes next ih =>
      have hs' := hwrite bytes s hs
      simp only [run]
      generalize h.write bytes s = r at hs'
      rcases r with ⟨_ | _, s'⟩
      · exact hs'
      · exact ih s' hs'
  | note event next ih => exact ih _ (hnote event s hs)

/-! ## The reference handler -/

/-- How a program ends when the connection fails it: a read of `limit` bytes or more cannot be
    asked for, a read is `short` if the stream ends too early, bytes may remain `unsent`. -/
class ConnectionEnds (ε : Type) where
  limit : ℕ
  overlong : ε
  short : ε
  unsent : ε

/-- A note, with what was unread and what had been written at that point. -/
structure Mark (ν : Type) where
  event : ν
  unread : List UInt8
  written : List UInt8

/-- Both directions of a connection, and the notes so far. -/
structure Stream (ν : Type) where
  inbound : List UInt8
  outbound : List UInt8
  log : List (Mark ν)

/-- Reading takes exactly the next bytes, writing appends. -/
def streamHandler [ConnectionEnds ε] : Handler ε ν (Stream ν) where
  read n c :=
    if ConnectionEnds.limit ε ≤ n then (.error ConnectionEnds.overlong, c)
    else if n ≤ c.inbound.length then
      (.ok (c.inbound.take n), { c with inbound := c.inbound.drop n })
    else (.error ConnectionEnds.short, { c with inbound := [] })
  write bytes c := (.ok (), { c with outbound := c.outbound ++ bytes })
  note event c := { c with log := c.log ++ [⟨event, c.inbound, c.outbound⟩] }

/-- The run of a program over a stream. -/
abbrev runStream [ConnectionEnds ε] (p : Prog ε ν α) (c : Stream ν) : Except ε α × Stream ν :=
  run streamHandler p c

/-- What a program has read decides its run: with the same bytes and any others behind them it ends
    the same way, and with only a part of them it waits for the next ones until the stream ends. -/
theorem run_of_prefix [ConnectionEnds ε] {gives : ε → Prop} {p : Prog ε ν α}
    (hp : p.OnlyReads gives) {c c' : Stream ν} {r : Except ε α} (h : runStream p c = (r, c'))
    (hr : r ≠ .error ConnectionEnds.short) :
    ∃ used, c.inbound = used ++ c'.inbound ∧
      (∀ rest, runStream p { c with inbound := used ++ rest } = (r, { c with inbound := rest })) ∧
      ∀ u w, used = u ++ w → w ≠ [] →
        runStream p { c with inbound := u }
          = (.error ConnectionEnds.short, { c with inbound := [] }) := by
  induction p generalizing c with
  | pure a =>
      cases h
      exact ⟨[], rfl, fun _ => rfl, fun u w huw hw => absurd (by simp_all) hw⟩
  | exit e =>
      cases h
      exact ⟨[], rfl, fun _ => rfl, fun u w huw hw => absurd (by simp_all) hw⟩
  | write bytes next _ => exact hp.elim
  | note event next _ => exact hp.elim
  | read n next ih =>
      -- a read that is too long ends the run before it takes anything
      by_cases hn : ConnectionEnds.limit ε ≤ n
      · simp only [runStream, run, streamHandler, if_pos hn] at h
        cases h
        refine ⟨[], rfl, fun _ => ?_, fun u w huw hw => absurd (by simp_all) hw⟩
        simp only [runStream, run, streamHandler, if_pos hn, List.nil_append]
      by_cases hlen : n ≤ c.inbound.length
      · simp only [runStream, run, streamHandler, if_neg hn, if_pos hlen] at h
        obtain ⟨used, hin, hrest, hpart⟩ := ih _ (hp _) h
        have htake : (c.inbound.take n).length = n := by simp [hlen]
        refine ⟨c.inbound.take n ++ used, ?_, fun rest => ?_, fun u w huw hw => ?_⟩
        · rw [List.append_assoc, ← show c.inbound.drop n = used ++ c'.inbound from hin,
            List.take_append_drop]
        · have hlen' : n ≤ (c.inbound.take n ++ used ++ rest).length := by
            simp only [List.length_append, htake]
            omega
          simp only [runStream, run, streamHandler, if_neg hn, if_pos hlen']
          rw [List.append_assoc, List.take_left' htake, List.drop_left' htake]
          exact hrest rest
        · by_cases hu : n ≤ u.length
          · -- the first read has its bytes: the run goes on with a part of what it used
            obtain ⟨u', rfl⟩ : ∃ u', u = c.inbound.take n ++ u' := by
              refine ⟨u.drop n, ?_⟩
              have htake' := congrArg (List.take n) huw
              rw [List.take_left' htake, List.take_append_of_le_length hu] at htake'
              rw [htake', List.take_append_drop]
            have hused : used = u' ++ w := by
              rw [List.append_assoc] at huw
              exact List.append_cancel_left huw
            simp only [runStream, run, streamHandler, if_neg hn, if_pos hu]
            rw [List.take_left' htake, List.drop_left' htake]
            exact hpart u' w hused hw
          · -- the cut falls into the first read
            simp only [runStream, run, streamHandler, if_neg hn, if_neg hu]
      · simp only [runStream, run, streamHandler, if_neg hn, if_neg hlen] at h
        cases h
        exact absurd rfl hr

end StreamProgram
