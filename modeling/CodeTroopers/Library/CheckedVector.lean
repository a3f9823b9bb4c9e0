import Mathlib.Algebra.Group.Basic
import Mathlib.Algebra.Order.Monoid.Defs
import Mathlib.Data.List.Perm.Basic
import Mathlib.Tactic.SplitIfs

set_option autoImplicit false

/-! # Vectors with checked indexing

A growable array as a list, indexed by an integer. An access outside the array has no result
(`none`): the code this models leaves it undefined. `foldlM_simulates` carries a relation between
a checked loop and an unchecked one through the loop, and `foldlM_guarded` separates the checks of
a guarded loop from its body. -/

namespace CheckedVector

variable {α β σ τ : Type}

/-! ## Access -/

/-- `v[i]`. -/
def at? (v : List α) (i : Int) : Option α :=
  if 0 ≤ i then v[i.toNat]? else none

/-- `v[i] = a`. -/
def set? (v : List α) (i : Int) (a : α) : Option (List α) :=
  if 0 ≤ i ∧ i.toNat < v.length then some (v.set i.toNat a) else none

/-- `v.resize(n, a)`: cut to `n` entries or filled up with `a`; a negative `n` is rejected. -/
def resize? (v : List α) (n : Int) (a : α) : Option (List α) :=
  if 0 ≤ n then some (v.take n.toNat ++ List.replicate (n.toNat - v.length) a) else none

theorem at?_eq_some_iff (v : List α) (i : Int) (a : α) :
    at? v i = some a ↔ 0 ≤ i ∧ v[i.toNat]? = some a := by
  unfold at?
  split_ifs with h <;> simp [h]

/-- An access is defined exactly inside the array. -/
theorem at?_isSome_iff (v : List α) (i : Int) :
    (at? v i).isSome ↔ 0 ≤ i ∧ i < v.length := by
  unfold at?
  split_ifs with h
  · rw [Option.isSome_iff_ne_none, ne_eq, List.getElem?_eq_none_iff]
    omega
  · simp [h]

theorem exists_at?_of_lt (v : List α) (i : Int) (h0 : 0 ≤ i) (h : i < v.length) :
    ∃ a ∈ v, at? v i = some a := by
  have hlt : i.toNat < v.length := by omega
  exact ⟨v[i.toNat], List.getElem_mem hlt, by simp [at?, h0, hlt]⟩

theorem set?_eq_some (v : List α) (i : Int) (a : α) (h0 : 0 ≤ i) (h : i < v.length) :
    set? v i a = some (v.set i.toNat a) :=
  if_pos ⟨h0, by omega⟩

@[simp] theorem length_set? {v w : List α} {i : Int} {a : α} (h : set? v i a = some w) :
    w.length = v.length := by
  unfold set? at h
  split_ifs at h
  rw [← Option.some.inj h, List.length_set]

theorem set?_isSome_iff (v : List α) (i : Int) (a : α) :
    (set? v i a).isSome ↔ (at? v i).isSome := by
  rw [at?_isSome_iff]
  unfold set?
  split_ifs with h
  · simp only [Option.isSome_some, true_iff]
    omega
  · simp only [Option.isSome_none, Bool.false_eq_true, false_iff]
    omega

/-- Reading back after a write: the written entry at its index, the old one elsewhere. -/
theorem at?_of_set?_eq_some {v w : List α} {i : Int} {a : α} (h : set? v i a = some w) (j : Int) :
    at? w j = if j = i then some a else at? v j := by
  unfold set? at h
  split_ifs at h with hi
  obtain ⟨hi0, hilt⟩ := hi
  rw [← Option.some.inj h]
  unfold at?
  by_cases hj : 0 ≤ j
  · by_cases hji : j = i
    · subst hji
      simp [hj, hilt]
    · have hne : i.toNat ≠ j.toNat := by omega
      simp [hj, hji, List.getElem?_set_ne hne]
  · have hji : j ≠ i := by omega
    simp [hj, hji]

theorem mem_of_set?_eq_some {v w : List α} {i : Int} {a b : α} (h : set? v i a = some w)
    (hb : b ∈ w) : b ∈ v ∨ b = a := by
  unfold set? at h
  split_ifs at h
  rw [← Option.some.inj h] at hb
  exact List.mem_or_eq_of_mem_set hb

/-! ## Loops -/

/-- A checked loop simulates an unchecked one: a relation that one iteration keeps is kept by the
    whole loop, and no iteration fails. -/
theorem foldlM_simulates (R : τ → σ → Prop) (f : τ → α → Option τ) (g : σ → α → σ) (l : List α)
    (hstep : ∀ a ∈ l, ∀ t s, R t s → ∃ t', f t a = some t' ∧ R t' (g s a)) :
    ∀ t s, R t s → ∃ t', l.foldlM f t = some t' ∧ R t' (l.foldl g s) := by
  induction l with
  | nil => exact fun t s h => ⟨t, rfl, h⟩
  | cons a l ih =>
      intro t s h
      obtain ⟨t₁, hf, hR⟩ := hstep a (List.mem_cons_self ..) t s h
      obtain ⟨t', hrun, hR'⟩ := ih (fun b hb => hstep b (List.mem_cons_of_mem a hb)) t₁ _ hR
      exact ⟨t', by simp [List.foldlM_cons, hf, hrun], hR'⟩

/-- A loop that keeps more than another one, and otherwise does the same. -/
theorem map_foldlM (φ : τ → σ) (f : τ → α → Option τ) (g : σ → α → Option σ)
    (h : ∀ t a, (f t a).map φ = g (φ t) a) (l : List α) (t : τ) :
    (l.foldlM f t).map φ = l.foldlM g (φ t) := by
  induction l generalizing t with
  | nil => rfl
  | cons a l ih =>
      rw [List.foldlM_cons, List.foldlM_cons, ← h]
      cases f t a with
      | none => rfl
      | some t' => exact ih t'

/-- A pass whose every read is defined is defined, and what holds of the reads holds of it. -/
theorem exists_mapM (f : α → Option β) (good : β → Prop) (l : List α)
    (h : ∀ a ∈ l, ∃ v, f a = some v ∧ good v) :
    ∃ vs, l.mapM f = some vs ∧ vs.length = l.length ∧ ∀ v ∈ vs, good v := by
  induction l with
  | nil => exact ⟨[], rfl, rfl, by simp⟩
  | cons a l ih =>
      obtain ⟨v, hv, hgood⟩ := h a (List.mem_cons_self ..)
      obtain ⟨vs, hrun, hlen, hall⟩ := ih fun b hb => h b (List.mem_cons_of_mem a hb)
      refine ⟨v :: vs, by simp [List.mapM_cons, hv, hrun], by simp [hlen], ?_⟩
      exact List.forall_mem_cons.mpr ⟨hgood, hall⟩

/-- Two passes whose reads differ by at most `c` one by one. -/
theorem exists_mapM_sum_le {M : Type} [AddCommMonoid M] [PartialOrder M] [IsOrderedAddMonoid M]
    {f f' : α → Option M} {c : M} (l : List α)
    (h : ∀ a ∈ l, ∃ u v, f a = some u ∧ f' a = some v ∧ u ≤ v + c) :
    ∃ us vs, l.mapM f = some us ∧ l.mapM f' = some vs ∧ us.sum ≤ vs.sum + l.length • c := by
  induction l with
  | nil => exact ⟨[], [], rfl, rfl, by simp⟩
  | cons a l ih =>
      obtain ⟨u, v, hu, hv, hle⟩ := h a (List.mem_cons_self ..)
      obtain ⟨us, vs, hus, hvs, hsum⟩ := ih fun b hb => h b (List.mem_cons_of_mem a hb)
      refine ⟨u :: us, v :: vs, by simp [List.mapM_cons, hu, hus],
        by simp [List.mapM_cons, hv, hvs], ?_⟩
      rw [List.sum_cons, List.sum_cons, List.length_cons, succ_nsmul']
      calc u + us.sum ≤ (v + c) + (vs.sum + l.length • c) := add_le_add hle hsum
        _ = v + vs.sum + (c + l.length • c) := add_add_add_comm ..

theorem mem_of_mapM {f : α → Option β} {l : List α} {vs : List β} (h : l.mapM f = some vs) {a : α}
    (ha : a ∈ l) {v : β} (hv : f a = some v) : v ∈ vs := by
  induction l generalizing vs with
  | nil => simp at ha
  | cons b l ih =>
      simp only [List.mapM_cons, Option.bind_eq_bind, Option.bind_eq_some_iff, Option.pure_def,
        Option.some.injEq] at h
      obtain ⟨u, hu, rest, hrest, rfl⟩ := h
      rcases List.mem_cons.mp ha with rfl | hmem
      · rw [hv, Option.some.injEq] at hu
        exact hu ▸ List.mem_cons_self ..
      · exact List.mem_cons_of_mem u (ih hrest hmem)

/-- A loop that adds up computes the sum. -/
theorem foldlM_add {M : Type} [AddMonoid M] (f : α → Option M) (l : List α) (d : M) :
    l.foldlM (fun d a => (f a).map fun e => d + e) d = (l.mapM f).map fun v => d + v.sum := by
  induction l generalizing d with
  | nil => simp
  | cons a l ih =>
      rw [List.foldlM_cons, List.mapM_cons]
      cases f a with
      | none => rfl
      | some e =>
          simp only [Option.map_some, Option.bind_eq_bind, Option.bind_some, ih]
          cases l.mapM f with
          | none => rfl
          | some v => simp [add_assoc]

/-- A loop whose body is defined for each entry is defined. -/
theorem isSome_foldlM (f : σ → α → Option σ) (l : List α)
    (hf : ∀ a ∈ l, ∀ s, (f s a).isSome) (s : σ) : (l.foldlM f s).isSome := by
  induction l generalizing s with
  | nil => rfl
  | cons a l ih =>
      obtain ⟨s', hs'⟩ := Option.isSome_iff_exists.mp (hf a (List.mem_cons_self ..) s)
      rw [List.foldlM_cons, hs']
      exact ih (fun b hb => hf b (List.mem_cons_of_mem a hb)) s'

/-- Where any two iterations commute, the order of the entries does not matter. -/
theorem foldlM_perm (f : σ → α → Option σ)
    (hcomm : ∀ s a b, (f s a).bind (f · b) = (f s b).bind (f · a)) {l l' : List α}
    (h : l.Perm l') (s : σ) : l.foldlM f s = l'.foldlM f s := by
  induction h generalizing s with
  | nil => rfl
  | cons a _ ih => simp only [List.foldlM_cons, ih]
  | swap a b l =>
      simp only [List.foldlM_cons, Option.bind_eq_bind, ← Option.bind_assoc, hcomm s b a]
  | trans _ _ ih₁ ih₂ => rw [ih₁, ih₂]

/-- A loop whose body runs only under a checked guard: `ok` says that the checks of an entry are
    defined, `p` that its guard holds. If all checks are defined, it is the loop over the entries
    whose guard holds; otherwise it has no result, wherever the undefined check is. -/
theorem foldlM_guarded (ok : α → Prop) [DecidablePred ok] (p : α → Bool)
    (f g : σ → α → Option σ) (l : List α)
    (hf : ∀ a ∈ l, ∀ s, f s a = if ok a then (if p a then g s a else some s) else none) (s : σ) :
    l.foldlM f s = if ∀ a ∈ l, ok a then (l.filter p).foldlM g s else none := by
  induction l generalizing s with
  | nil => simp
  | cons a l ih =>
      rw [List.foldlM_cons, hf a (List.mem_cons_self ..)]
      have hrest := ih fun b hb => hf b (List.mem_cons_of_mem a hb)
      by_cases hok : ok a
      · by_cases hp : p a
        · rw [if_pos hok, if_pos hp, List.filter_cons_of_pos hp, List.foldlM_cons]
          cases hg : g s a with
          | none => simp
          | some s' => simp [hok, hrest]
        · simp [hok, hp, hrest]
      · simp [hok]

end CheckedVector
