import Mathlib.Data.List.Forall2

set_option autoImplicit false

/-! # Lists that are related entry by entry

Loops over two lists that `List.Forall₂` relates do the same, if their bodies do the same for
related entries. -/

namespace RelatedLists

variable {α β σ : Type} {R : α → β → Prop} {l : List α} {l' : List β}

theorem exists_mem (h : List.Forall₂ R l l') {a : α} (ha : a ∈ l) : ∃ a' ∈ l', R a a' := by
  induction h with
  | nil => simp at ha
  | cons hR _ ih =>
      rcases List.mem_cons.mp ha with rfl | ha
      · exact ⟨_, List.mem_cons_self, hR⟩
      · obtain ⟨a', ha', hR'⟩ := ih ha
        exact ⟨a', List.mem_cons_of_mem _ ha', hR'⟩

theorem foldlM_eq {f : σ → α → Option σ} {f' : σ → β → Option σ} (h : List.Forall₂ R l l')
    (hf : ∀ a a', R a a' → ∀ s, f' s a' = f s a) (s : σ) : l'.foldlM f' s = l.foldlM f s := by
  induction h generalizing s with
  | nil => rfl
  | cons hR _ ih => simp only [List.foldlM_cons, hf _ _ hR, ih]

theorem any_eq {p : α → Bool} {p' : β → Bool} (h : List.Forall₂ R l l')
    (hp : ∀ a a', R a a' → p' a' = p a) : l'.any p' = l.any p := by
  induction h with
  | nil => rfl
  | cons hR _ ih => rw [List.any_cons, List.any_cons, hp _ _ hR, ih]

theorem countP_eq {p : α → Bool} {p' : β → Bool} (h : List.Forall₂ R l l')
    (hp : ∀ a a', R a a' → p' a' = p a) : l'.countP p' = l.countP p := by
  induction h with
  | nil => rfl
  | cons hR _ ih => rw [List.countP_cons, List.countP_cons, hp _ _ hR, ih]

theorem filter_related {p : α → Bool} {p' : β → Bool} (h : List.Forall₂ R l l')
    (hp : ∀ a a', R a a' → p' a' = p a) : List.Forall₂ R (l.filter p) (l'.filter p') := by
  refine List.rel_filter (fun a a' hR => ?_) h
  show p a = true ↔ p' a' = true
  rw [hp a a' hR]

/-- What holds of the entries of the first list may be added to the relation. -/
theorem related_of_mem {P : α → Prop} (h : List.Forall₂ R l l') (hP : ∀ a ∈ l, P a) :
    List.Forall₂ (fun a a' => P a ∧ R a a') l l' :=
  (List.forall₂_and_left l l').mpr ⟨hP, h⟩

end RelatedLists
