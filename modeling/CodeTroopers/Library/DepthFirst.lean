import Mathlib.Algebra.Order.Group.Int

set_option autoImplicit false

/-! # Depth-first search with a shared running maximum

A bounded depth-first search over a tree given by its ordered successors, whose levels share three
variables: the best score so far, the label to return for it, and the label of the branch of the
root that is being explored. The last one is written at the root only (`n + 1 = top`), the first
two wherever a strictly better score is met.

`plans` lists every path from a node in pre-order, its edges and the node it ends in.
`explore_eq_foldl` flattens the recursion into one pass over this list, and `explore_firstBest` says
what the pass finds: the first path in pre-order whose end has the maximal score, and the label of
its first edge. -/

namespace DepthFirst

variable {σ ε α : Type}

/-- The variables all levels of the search share. -/
structure Shared (α : Type) where
  best : α
  bestScore : ℤ
  cur : α
deriving DecidableEq

/-- A node offers its score: strictly better than the best so far, it takes over. -/
def Shared.offer (b : Shared α) (score : ℤ) : Shared α :=
  if score > b.bestScore then { b with best := b.cur, bestScore := score } else b

variable (children : σ → List (ε × σ)) (label : ε → α) (score : σ → ℤ)

/-- The paths of at most `n` edges from a node, in pre-order: their edges and their ends. -/
def plans : ℕ → σ → List (List ε × σ)
  | 0, s => [([], s)]
  | n + 1, s =>
    ([], s) :: (children s).flatMap fun c => (plans n c.2).map fun p => (c.1 :: p.1, p.2)

/-- The search of the `n` levels below a node; `top` is the number of levels below the root. -/
def explore (top : ℕ) : ℕ → σ → Shared α → Shared α
  | 0, s, b => b.offer (score s)
  | n + 1, s, b =>
    (children s).foldl
      (fun b c => explore top n c.2 (if n + 1 = top then { b with cur := label c.1 } else b))
      (b.offer (score s))

/-! ## The tree -/

theorem nil_mem_plans (n : ℕ) (s : σ) : ([], s) ∈ plans children n s := by
  cases n <;> simp [plans]

theorem mem_plans_succ_iff (n : ℕ) (s : σ) (p : List ε × σ) :
    p ∈ plans children (n + 1) s ↔ p = ([], s) ∨
      ∃ c ∈ children s, ∃ q ∈ plans children n c.2, p = (c.1 :: q.1, q.2) := by
  simp only [plans, List.mem_cons, List.mem_flatMap, List.mem_map, eq_comm]

/-- The path without an edge comes first. -/
theorem exists_plans_eq_cons (n : ℕ) (s : σ) : ∃ rest, plans children n s = ([], s) :: rest := by
  cases n with
  | zero => exact ⟨[], rfl⟩
  | succ n => exact ⟨_, rfl⟩

/-- Only the root is reached without an edge. -/
theorem eq_of_nil_mem_plans {n : ℕ} {s t : σ} (h : ([], t) ∈ plans children n s) : t = s := by
  cases n with
  | zero => simpa [plans] using h
  | succ n => simpa [mem_plans_succ_iff] using h

/-! ## Flattening the recursion -/

/-- One offer with an explicit label. -/
def Shared.offerAs (b : Shared α) (label : α) (score : ℤ) : Shared α :=
  { ({ b with cur := label } : Shared α).offer score with cur := b.cur }

@[simp] theorem Shared.offer_cur (b : Shared α) (v : ℤ) : (b.offer v).cur = b.cur := by
  unfold offer
  split <;> rfl

@[simp] theorem Shared.offerAs_cur (b : Shared α) (a : α) (v : ℤ) :
    (b.offerAs a v).cur = b.cur := rfl

/-- What the search returns, without the label of the branch it ended in. -/
def Shared.result (b : Shared α) : α × ℤ := (b.best, b.bestScore)

@[simp] theorem Shared.offerAs_result (b : Shared α) (a : α) (v : ℤ) :
    (b.offerAs a v).result = (({ b with cur := a } : Shared α).offer v).result := rfl

/-- Below the root the search is one pass of offers under the current label. -/
theorem explore_below (top n : ℕ) (hn : n < top) (s : σ) (b : Shared α) :
    explore children label score top n s b
      = (plans children n s).foldl (fun b p => b.offer (score p.2)) b := by
  induction n generalizing s b with
  | zero => simp [explore, plans]
  | succ n ih =>
      have hne : n + 1 ≠ top := by omega
      simp only [explore, plans, List.foldl_cons, List.foldl_flatMap, List.foldl_map, if_neg hne]
      congr 1
      funext b c
      exact ih (by omega) c.2 b

/-- The label a path offers: that of its first edge, or the root's own. -/
def firstLabel (root : α) (p : List ε) : α := (p.head?.map label).getD root

theorem foldl_offer_result (l : List σ) (a : α) (b b' : Shared α)
    (h : b.result = b'.result) (ha : b.cur = a) :
    (l.foldl (fun b t => b.offer (score t)) b).result
      = (l.foldl (fun b t => b.offerAs a (score t)) b').result := by
  induction l generalizing b b' with
  | nil => exact h
  | cons t l ih =>
      refine ih _ _ ?_ (by simp [ha])
      obtain ⟨best, bestScore, cur⟩ := b
      obtain ⟨best', bestScore', cur'⟩ := b'
      simp only [Shared.result, Prod.mk.injEq] at h ha
      obtain ⟨rfl, rfl⟩ := h
      subst ha
      rfl

/-- **The search is one pass over the plans**, each offering its first label. -/
theorem explore_eq_foldl (top : ℕ) (s : σ) (b : Shared α) :
    (explore children label score top top s b).result
      = ((plans children top s).foldl
          (fun b' p => b'.offerAs (firstLabel label b.cur p.1) (score p.2)) b).result := by
  cases top with
  | zero => rfl
  | succ n =>
      simp only [explore, plans, List.foldl_cons, List.foldl_flatMap, List.foldl_map, if_true]
      have hroot : (b.offer (score s)).result
          = (b.offerAs (firstLabel label b.cur []) (score s)).result := rfl
      -- the children one by one: each writes its label, then offers its subtree under it
      generalize b.offer (score s) = b₁ at hroot
      generalize b.offerAs (firstLabel label b.cur []) (score s) = b₂ at hroot
      induction children s generalizing b₁ b₂ with
      | nil => exact hroot
      | cons c cs ih =>
          refine ih _ _ ?_
          dsimp only
          rw [explore_below children label score (n + 1) n (by omega)]
          have hfold := foldl_offer_result score ((plans children n c.2).map Prod.snd) (label c.1)
            { b₁ with cur := label c.1 } b₂ hroot rfl
          simpa [List.foldl_map, firstLabel] using hfold

/-! ## What the pass finds -/

/-- `p` is the first element of `l` with the maximal score. -/
def FirstBest {β : Type} (score : β → ℤ) (l : List β) (p : β) : Prop :=
  ∃ k : ℕ, l[k]? = some p ∧
    ∀ (i : ℕ) (q : β), l[i]? = some q → score q ≤ score p ∧ (i < k → score q < score p)

theorem FirstBest.mem {β : Type} {score : β → ℤ} {l : List β} {p : β}
    (h : FirstBest score l p) : p ∈ l :=
  let ⟨_, hk, _⟩ := h
  List.mem_of_getElem? hk

theorem FirstBest.le {β : Type} {score : β → ℤ} {l : List β} {p : β} (h : FirstBest score l p)
    {q : β} (hq : q ∈ l) : score q ≤ score p := by
  obtain ⟨k, _, hall⟩ := h
  obtain ⟨i, hi⟩ := List.mem_iff_getElem?.mp hq
  exact (hall i q hi).1

/-- If nothing beats the head, it is the first best element. -/
theorem FirstBest.eq_head {β : Type} {score : β → ℤ} {a : β} {l : List β} {p : β}
    (h : FirstBest score (a :: l) p) (ha : ∀ q ∈ l, score q ≤ score a) : p = a := by
  obtain ⟨k, hk, hall⟩ := h
  cases k with
  | zero => simpa [eq_comm] using hk
  | succ k =>
      have hlt := (hall 0 a rfl).2 (by omega)
      have hle := ha p (List.mem_of_getElem? hk)
      omega

theorem firstBest_head {β : Type} {score : β → ℤ} {a : β} {l : List β}
    (ha : ∀ q ∈ l, score q ≤ score a) : FirstBest score (a :: l) a := by
  refine ⟨0, rfl, fun i q hi => ⟨?_, fun h => absurd h (by omega)⟩⟩
  rcases List.mem_cons.mp (List.mem_of_getElem? hi) with rfl | hq
  · exact le_refl _
  · exact ha q hq

/-- The first best element of the tail stays it behind a head that it beats. -/
theorem FirstBest.cons {β : Type} {score : β → ℤ} {a : β} {l : List β} {p : β}
    (h : FirstBest score l p) (ha : score a < score p) : FirstBest score (a :: l) p := by
  obtain ⟨k, hk, hall⟩ := h
  refine ⟨k + 1, hk, fun i q hi => ?_⟩
  cases i with
  | zero =>
      have hqa : a = q := by simpa using hi
      exact hqa ▸ ⟨ha.le, fun _ => ha⟩
  | succ i =>
      have hq := hall i q hi
      exact ⟨hq.1, fun h => hq.2 (by omega)⟩

/-- A pass of labelled offers keeps what it started with, if nothing beats it, and otherwise ends
    with the first best element. -/
theorem foldl_offerAs {β : Type} (label : β → α) (score : β → ℤ) (l : List β) (b : Shared α) :
    ((∀ q ∈ l, score q ≤ b.bestScore) ∧
      (l.foldl (fun b q => b.offerAs (label q) (score q)) b).result = b.result) ∨
    ∃ p, FirstBest score l p ∧ b.bestScore < score p ∧
      (l.foldl (fun b q => b.offerAs (label q) (score q)) b).result = (label p, score p) := by
  induction l generalizing b with
  | nil => exact Or.inl ⟨by simp, rfl⟩
  | cons q l ih =>
      rw [List.foldl_cons]
      by_cases hq : score q > b.bestScore
      · have hres : (b.offerAs (label q) (score q)).result = (label q, score q) := by
          simp [Shared.offerAs, Shared.offer, hq, Shared.result]
        have hbest : (b.offerAs (label q) (score q)).bestScore = score q := congrArg Prod.snd hres
        rcases ih (b.offerAs (label q) (score q)) with ⟨hall, hr⟩ | ⟨p, hp, hlt, hr⟩
        · exact Or.inr ⟨q, firstBest_head fun r hr => hbest ▸ hall r hr, hq, hr.trans hres⟩
        · rw [hbest] at hlt
          exact Or.inr ⟨p, hp.cons hlt, by omega, hr⟩
      · have hsame : (b.offerAs (label q) (score q)).result = b.result := by
          simp [Shared.offerAs, Shared.offer, hq, Shared.result]
        have hbest : (b.offerAs (label q) (score q)).bestScore = b.bestScore :=
          congrArg Prod.snd hsame
        rcases ih (b.offerAs (label q) (score q)) with ⟨hall, hr⟩ | ⟨p, hp, hlt, hr⟩
        · rw [hbest] at hall
          refine Or.inl ⟨fun r hr' => ?_, hr.trans hsame⟩
          rcases List.mem_cons.mp hr' with rfl | hr'
          · omega
          · exact hall r hr'
        · rw [hbest] at hlt
          exact Or.inr ⟨p, hp.cons (by omega), hlt, hr⟩

/-- **What the search returns**: what it started with, if no path beats it; otherwise the score of
    the first maximal path in pre-order and the first label on it. -/
theorem explore_firstBest (top : ℕ) (s : σ) (b : Shared α) :
    ((∀ q ∈ plans children top s, score q.2 ≤ b.bestScore) ∧
      (explore children label score top top s b).result = b.result) ∨
    ∃ p, FirstBest (fun q => score q.2) (plans children top s) p ∧ b.bestScore < score p.2 ∧
      (explore children label score top top s b).result
        = (firstLabel label b.cur p.1, score p.2) := by
  rw [explore_eq_foldl]
  exact foldl_offerAs (fun p : List ε × σ => firstLabel label b.cur p.1) (fun p => score p.2) _ b

end DepthFirst
