import CodeTroopers.Library.DepthFirst
import Mathlib.Algebra.BigOperators.Group.List.Basic
import Mathlib.Algebra.Order.Group.Abs
import Mathlib.Tactic.Ring

set_option autoImplicit false

/-! # Runs of a search tree

`Run` is a path of the tree as a relation: the labels of its edges, from one node to another.
`mem_plans_iff_run` says that the plans of a search are the runs within its depth, so that a fact
about every plan is an induction over a run. The inductions needed most are done here once.

* `Run.invariant`: what every edge keeps, holds at the end of a run.
* `Run.forall_mem`: what holds of the label of every edge, holds of the labels of a run.
* `Run.ledger`: a value that every edge changes by an amount of its label has changed by the sum
  of these amounts.
* `Run.drift`: a value that every edge changes by at most `c` has changed by at most `c` times the
  length of the run.
* `Run.countP_le_one`: an edge that uses up what it needs occurs once in a run.
* `Run.simulated`: a tree that can follow every edge of another one can follow its runs.
* `mem_plans_congr`: the order of the successors of a node does not matter for its plans.

`explore_bestScore_le_iff` is what the order of the search cannot change: the best score is the
least upper bound of the scores of the plans and of the score it started with. With a simulation it
compares two trees (`explore_bestScore_mono`). -/

namespace DepthFirst

variable {σ τ ε η α M : Type} {children : σ → List (ε × σ)}

/-! ## Runs and plans -/

/-- A path of the tree. -/
inductive Run (children : σ → List (ε × σ)) : σ → List ε → σ → Prop where
  | nil (s : σ) : Run children s [] s
  | cons {s t u : σ} {e : ε} {path : List ε} (hedge : (e, t) ∈ children s)
      (rest : Run children t path u) : Run children s (e :: path) u

theorem Run.snoc {s t u : σ} {e : ε} {path : List ε} (hrun : Run children s path t)
    (hedge : (e, u) ∈ children t) : Run children s (path ++ [e]) u := by
  induction hrun with
  | nil s => exact .cons hedge (.nil u)
  | cons hfirst _ ih => exact .cons hfirst (ih hedge)

/-- A run with a last edge is a run to a node that has this edge. -/
theorem Run.exists_of_snoc {s u : σ} {e : ε} {path : List ε}
    (hrun : Run children s (path ++ [e]) u) :
    ∃ t, Run children s path t ∧ (e, u) ∈ children t := by
  induction path generalizing s with
  | nil =>
      cases hrun with
      | cons hedge rest =>
          cases rest
          exact ⟨s, .nil s, hedge⟩
  | cons e₀ path ih =>
      cases hrun with
      | cons hedge rest =>
          obtain ⟨t, hrun, hlast⟩ := ih rest
          exact ⟨t, .cons hedge hrun, hlast⟩

theorem Run.unique
    (hchildren : ∀ s e t u, (e, t) ∈ children s → (e, u) ∈ children s → t = u) {s t u : σ}
    {path : List ε} (ht : Run children s path t) (hu : Run children s path u) : t = u := by
  induction ht with
  | nil =>
      cases hu
      rfl
  | cons hedge _ ih =>
      cases hu with
      | cons hedge' rest =>
          obtain rfl := hchildren _ _ _ _ hedge hedge'
          exact ih rest

/-- **The plans are the runs within the depth.** -/
theorem mem_plans_iff_run (n : ℕ) (s : σ) (p : List ε × σ) :
    p ∈ plans children n s ↔ Run children s p.1 p.2 ∧ p.1.length ≤ n := by
  induction n generalizing s p with
  | zero =>
      rw [plans, List.mem_singleton]
      constructor
      · intro h
        rw [h]
        exact ⟨.nil s, le_refl _⟩
      · intro h
        obtain ⟨path, t⟩ := p
        obtain ⟨hrun, hlen⟩ := h
        cases hrun with
        | nil => rfl
        | cons => exact absurd hlen (by simp)
  | succ n ih =>
      rw [mem_plans_succ_iff]
      constructor
      · intro h
        rcases h with rfl | ⟨c, hc, q, hq, rfl⟩
        · exact ⟨.nil s, Nat.zero_le _⟩
        · obtain ⟨hrun, hlen⟩ := (ih c.2 q).mp hq
          exact ⟨.cons hc hrun, by simpa using hlen⟩
      · intro h
        obtain ⟨path, t⟩ := p
        obtain ⟨hrun, hlen⟩ := h
        cases hrun with
        | nil => exact Or.inl rfl
        | @cons _ u _ e path hedge rest =>
            have hrest : path.length ≤ n := by simpa using hlen
            exact Or.inr ⟨(e, u), hedge, (path, t), (ih u _).mpr ⟨rest, hrest⟩, rfl⟩

theorem snoc_mem_plans {n : ℕ} {s u : σ} {e : ε} {p : List ε × σ} (hp : p ∈ plans children n s)
    (hlen : p.1.length < n) (hedge : (e, u) ∈ children p.2) :
    (p.1 ++ [e], u) ∈ plans children n s := by
  rw [mem_plans_iff_run] at hp ⊢
  exact ⟨hp.1.snoc hedge, by rw [List.length_append, List.length_singleton]; omega⟩

/-! ## Facts about runs -/

/-- What every edge keeps holds at the end of a run. -/
theorem Run.invariant {P : σ → Prop} (hstep : ∀ s, P s → ∀ c ∈ children s, P c.2) {s t : σ}
    {path : List ε} (hrun : Run children s path t) (hs : P s) : P t := by
  induction hrun with
  | nil => exact hs
  | cons hedge _ ih => exact ih (hstep _ hs _ hedge)

/-- A value that every edge changes by an amount of its label. -/
theorem Run.ledger [AddMonoid M] (f : σ → M) (w : ε → M)
    (hstep : ∀ s, ∀ c ∈ children s, f c.2 = f s + w c.1) {s t : σ} {path : List ε}
    (hrun : Run children s path t) : f t = f s + (path.map w).sum := by
  induction hrun with
  | nil s => simp
  | cons hedge _ ih =>
      rw [ih, hstep _ _ hedge, List.map_cons, List.sum_cons, add_assoc]

/-- A value that an edge changes by a bounded amount. -/
theorem Run.drift (f : σ → ℤ) {c : ℤ} (hstep : ∀ s, ∀ e ∈ children s, |f e.2 - f s| ≤ c) {s t : σ}
    {path : List ε} (hrun : Run children s path t) : |f t - f s| ≤ c * path.length := by
  induction hrun with
  | nil s => simp
  | @cons s u t e path hedge _ ih =>
      calc |f t - f s| ≤ |f t - f u| + |f u - f s| := abs_sub_le ..
        _ ≤ c * path.length + c := add_le_add ih (hstep s _ hedge)
        _ = c * (e :: path).length := by rw [List.length_cons]; push_cast; ring

theorem Run.forall_mem {Q : ε → Prop} (hstep : ∀ s, ∀ c ∈ children s, Q c.1) {s t : σ}
    {path : List ε} (hrun : Run children s path t) : ∀ e ∈ path, Q e := by
  induction hrun with
  | nil => simp
  | cons hedge _ ih => exact List.forall_mem_cons.mpr ⟨hstep _ _ hedge, ih⟩

/-- Once something is used up, the edges that need it are gone. -/
theorem Run.countP_eq_zero {p : ε → Bool} {Spent : σ → Prop}
    (hkeep : ∀ s, Spent s → ∀ c ∈ children s, Spent c.2)
    (hneed : ∀ s, Spent s → ∀ c ∈ children s, p c.1 = false) {s t : σ} {path : List ε}
    (hrun : Run children s path t) (hs : Spent s) : path.countP p = 0 := by
  induction hrun with
  | nil => rfl
  | cons hedge _ ih =>
      rw [List.countP_cons, ih (hkeep _ hs _ hedge), hneed _ hs _ hedge]
      rfl

/-- **An edge that uses up what it needs** occurs at most once. -/
theorem Run.countP_le_one {p : ε → Bool} {S : σ → Prop}
    (hkeep : ∀ s, S s → ∀ c ∈ children s, S c.2)
    (hneed : ∀ s, S s → ∀ c ∈ children s, p c.1 = false)
    (hspend : ∀ s, ∀ c ∈ children s, p c.1 = true → S c.2) {s t : σ} {path : List ε}
    (hrun : Run children s path t) : path.countP p ≤ 1 := by
  induction hrun with
  | nil => exact Nat.zero_le 1
  | @cons s _ _ e _ hedge rest ih =>
      rw [List.countP_cons]
      by_cases he : p e = true
      · have hrest := rest.countP_eq_zero hkeep hneed (hspend s _ hedge he)
        rw [hrest, if_pos he]
      · rw [if_neg he]
        exact ih

/-- A tree that can follow every edge of another one can follow its runs. -/
theorem Run.simulated {children' : τ → List (η × τ)} {R : σ → τ → Prop}
    (hstep : ∀ s s', R s s' → ∀ c ∈ children s, ∃ c' ∈ children' s', R c.2 c'.2) {s t : σ}
    {path : List ε} (hrun : Run children s path t) {s' : τ} (hs : R s s') :
    ∃ path' t', Run children' s' path' t' ∧ path'.length = path.length ∧ R t t' := by
  induction hrun generalizing s' with
  | nil s => exact ⟨[], s', .nil s', rfl, hs⟩
  | cons hedge _ ih =>
      obtain ⟨⟨e', u'⟩, hedge', hu⟩ := hstep _ _ hs _ hedge
      obtain ⟨path', t', hrun', hlen, ht⟩ := ih hu
      exact ⟨e' :: path', t', .cons hedge' hrun', by simp [hlen], ht⟩

/-- The order of the successors does not matter for which plans there are. -/
theorem mem_plans_congr {children' : σ → List (ε × σ)}
    (h : ∀ s c, c ∈ children s ↔ c ∈ children' s) (n : ℕ) (s : σ) (p : List ε × σ) :
    p ∈ plans children n s ↔ p ∈ plans children' n s := by
  induction n generalizing s p with
  | zero => rfl
  | succ n ih => simp only [mem_plans_succ_iff, h, ih]

/-! ## The best score -/

/-- **The best score is a least upper bound**, whatever order the search goes in. -/
theorem explore_bestScore_le_iff (label : ε → α) (score : σ → ℤ) (top : ℕ) (s : σ)
    (b : Shared α) (v : ℤ) :
    (explore children label score top top s b).bestScore ≤ v
      ↔ b.bestScore ≤ v ∧ ∀ q ∈ plans children top s, score q.2 ≤ v := by
  rcases explore_firstBest children label score top s b with ⟨hall, hres⟩ | ⟨p, hp, hlt, hres⟩
  · have hscore : (explore children label score top top s b).bestScore = b.bestScore :=
      congrArg Prod.snd hres
    rw [hscore]
    exact ⟨fun h => ⟨h, fun q hq => (hall q hq).trans h⟩, fun h => h.1⟩
  · have hscore : (explore children label score top top s b).bestScore = score p.2 :=
      congrArg Prod.snd hres
    rw [hscore]
    exact ⟨fun h => ⟨hlt.le.trans h, fun q hq => (hp.le hq).trans h⟩, fun h => h.2 p hp.mem⟩

/-- A best path goes on to nothing better, unless it is as long as a path may be. -/
theorem score_le_of_edge (score : σ → ℤ) {n : ℕ} {s : σ} {p : List ε × σ}
    (hp : p ∈ plans children n s) (hbest : ∀ q ∈ plans children n s, score q.2 ≤ score p.2)
    (hlen : p.1.length < n) {c : ε × σ} (hedge : c ∈ children p.2) : score c.2 ≤ score p.2 :=
  hbest _ (snoc_mem_plans hp hlen hedge)

/-- **A tree that can follow every edge of another one and scores no less** has a best score that is
    no less. -/
theorem explore_bestScore_mono {children' : τ → List (η × τ)} {β : Type} {label : ε → α}
    {label' : η → β} {score : σ → ℤ} {score' : τ → ℤ} {R : σ → τ → Prop}
    (hstep : ∀ s s', R s s' → ∀ c ∈ children s, ∃ c' ∈ children' s', R c.2 c'.2)
    (hscore : ∀ s s', R s s' → score s ≤ score' s') (top : ℕ) {s : σ} {s' : τ} (hs : R s s')
    {b : Shared α} {b' : Shared β} (hb : b.bestScore ≤ b'.bestScore) :
    (explore children label score top top s b).bestScore
      ≤ (explore children' label' score' top top s' b').bestScore := by
  obtain ⟨hinit, hplans⟩ := (explore_bestScore_le_iff label' score' top s' b' _).mp (le_refl _)
  refine (explore_bestScore_le_iff label score top s b _).mpr ⟨hb.trans hinit, fun q hq => ?_⟩
  -- the other tree has a plan that follows this one
  obtain ⟨hrun, hlen⟩ := (mem_plans_iff_run top s q).mp hq
  obtain ⟨path', t', hrun', hlen', ht⟩ := hrun.simulated hstep hs
  exact (hscore _ _ ht).trans
    (hplans (path', t') ((mem_plans_iff_run top s' _).mpr ⟨hrun', hlen'.le.trans hlen⟩))

end DepthFirst
