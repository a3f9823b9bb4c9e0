import Mathlib.Data.List.Basic
import Mathlib.Algebra.Order.Group.Nat
import Mathlib.Tactic.Ring

set_option autoImplicit false

/-! # Digits and nested tables

`a * k + b` with `b < k` has the digits `a` and `b`: it is bounded like them (`digit_lt`) and
determines them (`digits_inj`). A table written row by row holds the entry `b` of row `a` at this
place (`getElem?_flatMap_range`). Both can be repeated for more digits and rows of rows. -/

namespace MixedRadix

variable {α : Type}

theorem digit_lt {a b n k : ℕ} (ha : a < n) (hb : b < k) : a * k + b < n * k :=
  calc a * k + b < a * k + k := Nat.add_lt_add_left hb _
    _ = (a + 1) * k := (Nat.succ_mul a k).symm
    _ ≤ n * k := Nat.mul_le_mul_right k ha

theorem digits_inj {a b a' b' k : ℕ} (hb : b < k) (hb' : b' < k)
    (h : a * k + b = a' * k + b') : a = a' ∧ b = b' := by
  have hk : 0 < k := by omega
  rw [Nat.add_comm _ b, Nat.add_comm _ b'] at h
  have hdiv := congrArg (· / k) h
  have hmod := congrArg (· % k) h
  simp only [Nat.add_mul_div_right _ _ hk, Nat.div_eq_of_lt hb, Nat.div_eq_of_lt hb',
    Nat.zero_add] at hdiv
  simp only [Nat.add_mul_mod_self_right, Nat.mod_eq_of_lt hb, Nat.mod_eq_of_lt hb'] at hmod
  exact ⟨hdiv, hmod⟩

theorem length_flatMap_range {f : ℕ → List α} {k : ℕ} (hf : ∀ i, (f i).length = k) (n : ℕ) :
    ((List.range n).flatMap f).length = n * k := by
  simp [List.length_flatMap, hf]

theorem getElem?_flatMap_range {f : ℕ → List α} {k : ℕ} (hf : ∀ i, (f i).length = k) {n a b : ℕ}
    (ha : a < n) (hb : b < k) : ((List.range n).flatMap f)[a * k + b]? = (f a)[b]? := by
  induction n with
  | zero => omega
  | succ n ih =>
      rw [List.range_succ, List.flatMap_append]
      by_cases han : a < n
      · rw [List.getElem?_append_left, ih han]
        rw [length_flatMap_range hf]
        exact digit_lt han hb
      · obtain rfl : a = n := by omega
        rw [List.getElem?_append_right, length_flatMap_range hf]
        · simp
        · rw [length_flatMap_range hf]
          omega

end MixedRadix
