import Mathlib.Algebra.BigOperators.Group.Finset.Basic
import Mathlib.Algebra.BigOperators.Group.Finset.Piecewise
import Mathlib.Algebra.Order.BigOperators.Group.Finset
import Mathlib.Data.Int.Cast.Lemmas
import Mathlib.Tactic.Ring

set_option autoImplicit false

/-! # Ledgers

A ledger is a list of entries, an amount on an account each. `total` is what all entries on an
account come to; `entries` counts them, and `reaching` counts those that reach the account's limit
alone. Counting entries that reach a limit and accounts whose total does are different things:
`reaching_eq_of_entries_le_one` says that they agree on an account with at most one entry, and
`sum_total` and `sum_reaching` that nothing is lost by going from entries to accounts. -/

namespace Ledger

variable {ι : Type} [DecidableEq ι]

/-- What the entries on an account come to. -/
def total (l : List (ι × ℤ)) (a : ι) : ℤ := ((l.filter fun e => e.1 = a).map Prod.snd).sum

/-- The number of entries on an account. -/
def entries (l : List (ι × ℤ)) (a : ι) : ℕ := l.countP fun e => e.1 = a

/-- The number of entries on an account that reach its limit alone. -/
def reaching (limit : ι → ℤ) (l : List (ι × ℤ)) (a : ι) : ℕ :=
  l.countP fun e => decide (e.1 = a) && decide (limit e.1 ≤ e.2)

variable (limit : ι → ℤ)

@[simp] theorem total_nil (a : ι) : total ([] : List (ι × ℤ)) a = 0 := rfl

@[simp] theorem entries_nil (a : ι) : entries ([] : List (ι × ℤ)) a = 0 := rfl

@[simp] theorem reaching_nil (a : ι) : reaching limit [] a = 0 := rfl

theorem total_cons (e : ι × ℤ) (l : List (ι × ℤ)) (a : ι) :
    total (e :: l) a = (if e.1 = a then e.2 else 0) + total l a := by
  by_cases h : e.1 = a <;> simp [total, h]

theorem entries_cons (e : ι × ℤ) (l : List (ι × ℤ)) (a : ι) :
    entries (e :: l) a = (if e.1 = a then 1 else 0) + entries l a := by
  by_cases h : e.1 = a <;> simp [entries, h, Nat.add_comm]

theorem reaching_cons (e : ι × ℤ) (l : List (ι × ℤ)) (a : ι) :
    reaching limit (e :: l) a
      = (if e.1 = a ∧ limit e.1 ≤ e.2 then 1 else 0) + reaching limit l a := by
  rw [reaching, List.countP_cons, reaching, Nat.add_comm]
  simp only [Bool.and_eq_true, decide_eq_true_eq]

/-! ## One account -/

theorem total_le_entries_mul {l : List (ι × ℤ)} (h : ∀ e ∈ l, e.2 ≤ limit e.1) (a : ι) :
    total l a ≤ entries l a * limit a := by
  induction l with
  | nil => simp
  | cons e l ih =>
      obtain ⟨he, hl⟩ := List.forall_mem_cons.mp h
      have hrest := ih hl
      rw [total_cons, entries_cons]
      by_cases ha : e.1 = a
      · rw [ha] at he
        simp only [ha, if_true]
        push_cast
        rw [add_mul, one_mul]
        exact add_le_add he hrest
      · simpa [ha] using hrest

theorem total_eq_zero {l : List (ι × ℤ)} {a : ι} (h : entries l a = 0) :
    total l a = 0 ∧ reaching limit l a = 0 := by
  induction l with
  | nil => simp
  | cons e l ih =>
      rw [entries_cons] at h
      by_cases ha : e.1 = a
      · rw [if_pos ha] at h
        omega
      · rw [total_cons, reaching_cons]
        simpa [ha] using ih (by omega)

/-- **On an account with at most one entry** it is the same to ask whether an entry reaches the
    limit and whether the total does. -/
theorem reaching_eq_of_entries_le_one {l : List (ι × ℤ)} {a : ι} (h : entries l a ≤ 1)
    (hlimit : 0 < limit a) : reaching limit l a = if limit a ≤ total l a then 1 else 0 := by
  induction l with
  | nil => simp [not_le.mpr hlimit]
  | cons e l ih =>
      rw [entries_cons] at h
      by_cases ha : e.1 = a
      · -- the first entry is the only one
        rw [if_pos ha] at h
        obtain ⟨htotal, hreaching⟩ := total_eq_zero limit (l := l) (a := a) (by omega)
        simp [total_cons, reaching_cons, ha, htotal, hreaching]
      · simpa [total_cons, reaching_cons, ha] using ih (by omega)

/-! ## All accounts -/

/-- Counting account by account counts everything on these accounts. -/
theorem sum_countP {α : Type} (f : α → ι) (p : α → Bool) (s : Finset ι) (l : List α) :
    ∑ a ∈ s, l.countP (fun x => decide (f x = a) && p x)
      = l.countP fun x => decide (f x ∈ s) && p x := by
  induction l with
  | nil => simp
  | cons x l ih =>
      by_cases hx : p x <;>
        simp [List.countP_cons, Finset.sum_add_distrib, ih, hx]

section Accounts

variable {s : Finset ι} {l : List (ι × ℤ)}

theorem sum_total (h : ∀ e ∈ l, e.1 ∈ s) : ∑ a ∈ s, total l a = (l.map Prod.snd).sum := by
  induction l with
  | nil => simp
  | cons e l ih =>
      obtain ⟨he, hl⟩ := List.forall_mem_cons.mp h
      simp only [total_cons, Finset.sum_add_distrib, ih hl, Finset.sum_ite_eq, he, if_true,
        List.map_cons, List.sum_cons]

theorem sum_reaching (h : ∀ e ∈ l, e.1 ∈ s) :
    ∑ a ∈ s, reaching limit l a = l.countP fun e => decide (limit e.1 ≤ e.2) := by
  unfold reaching
  rw [sum_countP Prod.fst (fun e => decide (limit e.1 ≤ e.2)) s l]
  exact List.countP_congr fun e he => by simp [h e he]

/-- If no account has two entries, the entries that reach their limits are as many as the accounts
    that do. -/
theorem sum_reaching_of_entries_le_one (hone : ∀ a ∈ s, entries l a ≤ 1)
    (hlimit : ∀ a ∈ s, 0 < limit a) :
    ∑ a ∈ s, reaching limit l a = (s.filter fun a => limit a ≤ total l a).card := by
  rw [Finset.card_filter]
  exact Finset.sum_congr rfl fun a ha =>
    reaching_eq_of_entries_le_one limit (hone a ha) (hlimit a ha)

end Accounts

end Ledger
