import Mathlib.Data.Int.ModEq
import Mathlib.Tactic.Positivity
import Mathlib.Tactic.Ring

set_option autoImplicit false

/-! # Integers of a machine

Signed arithmetic that is undefined outside its range (`signed?`), unsigned arithmetic that wraps
around, and the conversions between them. A value that stays in its range comes back from any wider
unsigned type (`toSigned_unsigned`), and a loop whose values have room for all its rounds never
overflows (`foldlM_eq_of_room`). -/

namespace MachineInt

/-- The values of a signed type of `w` bits. -/
def InRange (w : ℕ) (n : Int) : Prop := -2 ^ (w - 1) ≤ n ∧ n < 2 ^ (w - 1)

instance (w : ℕ) (n : Int) : Decidable (InRange w n) := inferInstanceAs (Decidable (_ ∧ _))

/-- The result of a signed operation; an overflow is undefined. -/
def signed? (w : ℕ) (n : Int) : Option Int := if InRange w n then some n else none

/-- The conversion to an unsigned type of `w` bits. -/
def unsigned (w : ℕ) (n : Int) : Int := n % 2 ^ w

/-- The conversion to a signed type of `w` bits. -/
def toSigned (w : ℕ) (n : Int) : Int :=
  if n % 2 ^ w < 2 ^ (w - 1) then n % 2 ^ w else n % 2 ^ w - 2 ^ w

theorem signed?_of_inRange {w : ℕ} {n : Int} (h : InRange w n) : signed? w n = some n := if_pos h

theorem signed?_eq_some_iff {w : ℕ} {n m : Int} :
    signed? w n = some m ↔ InRange w n ∧ m = n := by
  unfold signed?
  split_ifs with h <;> simp [h, eq_comm]

theorem inRange_int {n : Int} : InRange 32 n ↔ -2 ^ 31 ≤ n ∧ n < 2 ^ 31 := Iff.rfl

theorem toSigned_unsigned {w v : ℕ} (hw : 0 < w) (hwv : w ≤ v) {n : Int} (h : InRange w n) :
    toSigned w (unsigned v n) = n := by
  obtain ⟨hlow, hhigh⟩ := h
  have hdvd : (2 : Int) ^ w ∣ 2 ^ v := pow_dvd_pow 2 hwv
  have htwo : (2 : Int) ^ w = 2 * 2 ^ (w - 1) := by
    rw [← pow_succ', Nat.sub_add_cancel hw]
  rw [toSigned, unsigned, Int.emod_emod_of_dvd n hdvd]
  by_cases hneg : n < 0
  · have hmod : n % 2 ^ w = n + 2 ^ w := by
      rw [← Int.add_emod_right]
      exact Int.emod_eq_of_lt (by omega) (by omega)
    rw [hmod, if_neg (by omega)]
    ring
  · have hmod : n % 2 ^ w = n := Int.emod_eq_of_lt (by omega) (by omega)
    rw [hmod, if_pos hhigh]

/-- Wrapping around before a subtraction makes no difference. -/
theorem unsigned_unsigned_sub (v : ℕ) (m n : Int) :
    unsigned v (unsigned v m - n) = unsigned v (m - n) := by
  rw [unsigned, unsigned, unsigned, Int.emod_sub_emod]

/-- A checked loop that comes to its end has computed what the unchecked one computes. -/
theorem foldlM_of_checked {α σ : Type} {f f' : σ → α → Option σ} {l : List α}
    (h : ∀ s, ∀ a ∈ l, ∀ s', f s a = some s' → f' s a = some s') {s r : σ}
    (hrun : l.foldlM f s = some r) : l.foldlM f' s = some r := by
  induction l generalizing s with
  | nil => exact hrun
  | cons a l ih =>
      rw [List.foldlM_cons, Option.bind_eq_bind, Option.bind_eq_some_iff] at hrun
      obtain ⟨s', hstep, hrest⟩ := hrun
      rw [List.foldlM_cons, h s a List.mem_cons_self s' hstep]
      exact ih (fun s b hb => h s b (List.mem_cons_of_mem a hb)) hrest

/-- **Loops with room for their values** agree: `Room n s` says that `n` more rounds from `s` on do
not leave the range. -/
theorem foldlM_eq_of_room {α σ : Type} {f f' : σ → α → Option σ} (Room : ℕ → σ → Prop) (l : List α)
    (h : ∀ a ∈ l, ∀ n s, Room (n + 1) s →
      f s a = f' s a ∧ ∀ s', f' s a = some s' → Room n s') {s : σ} (hs : Room l.length s) :
    l.foldlM f s = l.foldlM f' s ∧ ∀ s', l.foldlM f' s = some s' → Room 0 s' := by
  induction l generalizing s with
  | nil =>
      refine ⟨rfl, fun s' hrun => ?_⟩
      cases hrun
      exact hs
  | cons a l ih =>
      obtain ⟨heq, hroom⟩ := h a List.mem_cons_self l.length s hs
      rw [List.foldlM_cons, List.foldlM_cons, heq]
      cases hstep : f' s a with
      | none => exact ⟨rfl, fun _ hrun => absurd hrun (by simp)⟩
      | some s' => exact ih (fun b hb => h b (List.mem_cons_of_mem a hb)) (hroom s' hstep)

/-- A loop that has room for its values is the loop of the exact values. -/
theorem foldlM_eq_some_of_room {α σ : Type} {f : σ → α → Option σ} {f' : σ → α → σ}
    (Room : ℕ → σ → Prop) (l : List α)
    (h : ∀ a ∈ l, ∀ n s, Room (n + 1) s → f s a = some (f' s a) ∧ Room n (f' s a)) {s : σ}
    (hs : Room l.length s) : l.foldlM f s = some (l.foldl f' s) ∧ Room 0 (l.foldl f' s) := by
  have hexact : l.foldlM (fun s a => some (f' s a)) s = some (l.foldl f' s) := List.foldlM_pure
  have hstep : ∀ a ∈ l, ∀ n s, Room (n + 1) s →
      f s a = some (f' s a) ∧ ∀ s', some (f' s a) = some s' → Room n s' := by
    intro a ha n s hn
    obtain ⟨hstep, hn'⟩ := h a ha n s hn
    exact ⟨hstep, fun s' hs' => Option.some.inj hs' ▸ hn'⟩
  obtain ⟨heq, hroom⟩ := foldlM_eq_of_room Room l hstep hs
  exact ⟨heq.trans hexact, hroom _ hexact⟩

end MachineInt
