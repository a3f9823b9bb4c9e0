import CodeTroopers.Strategy.PlanTree
import CodeTroopers.Strategy.MyStrategy

set_option autoImplicit false

/-! # What `run()` returns

`run()` returns the first label on the first plan of maximal score, in the order of the search, and
`END_TURN` exactly if no plan scores more than doing nothing. This is `DepthFirst.explore_firstBest`
on the plan tree. -/

namespace CodeTroopers

namespace SlavaStrategy

variable (o : SlavaStrategy) (g : Globals)

/-- The first plan of maximal score within ten actions. -/
def BestPlan (p : List Step × Node) : Prop :=
  DepthFirst.FirstBest (fun q => o.score g q.2) (o.plans g 10 o.root) p

/-- `best_score` and `best_action` are the maximum over the plan tree and the action it is due
    to. -/
structure RefinesArgmax (s : SearchVars) : Prop where
  /-- `best_score` is an upper bound of the scores of the tree... -/
  score_le : ∀ p ∈ o.plans g 10 o.root, o.score g p.2 ≤ s.bestScore
  /-- ...the first node that attains it gives the action, by the first edge on its path... -/
  best : ∃ p, o.BestPlan g p ∧ s.bestScore = o.score g p.2 ∧
    s.best = DepthFirst.firstLabel Step.label (makeAction .endTurn) p.1
  /-- ...which is `END_TURN` if the root attains it... -/
  best_of_root : o.score g o.root = s.bestScore → s.best = makeAction .endTurn
  /-- ...and only then: no plan scores strictly more than doing nothing. -/
  endTurn_iff : s.best.action = .endTurn ↔
    ∀ p ∈ o.plans g 10 o.root, o.score g p.2 ≤ o.score g o.root

theorem search_eq :
    o.search g = if o.Defined g 10 o.root then
        some (DepthFirst.explore (o.children g) Step.label (o.score g) 10 10 o.root initialVars)
      else none :=
  o.maximizeScore_eq_explore g 10 _ _ _

/-- What a search leaves: its initial values if no plan scores more than `-inf`, otherwise the
    score and the first label of the best plan. -/
theorem search_cases {s : SearchVars} (h : o.search g = some s) :
    ((∀ p ∈ o.plans g 10 o.root, o.score g p.2 ≤ -inf) ∧ s.best = {} ∧ s.bestScore = -inf) ∨
    ∃ p, o.BestPlan g p ∧ -inf < o.score g p.2 ∧ s.bestScore = o.score g p.2 ∧
      s.best = DepthFirst.firstLabel Step.label (makeAction .endTurn) p.1 := by
  rw [search_eq] at h
  split_ifs at h
  cases h
  rcases DepthFirst.explore_firstBest (o.children g) Step.label (o.score g) 10 o.root initialVars
    with ⟨hall, hres⟩ | ⟨p, hp, hlt, hres⟩
  · exact Or.inl ⟨hall, congrArg Prod.fst hres, congrArg Prod.snd hres⟩
  · exact Or.inr ⟨p, hp, hlt, congrArg Prod.snd hres, congrArg Prod.fst hres⟩

theorem head_mem_steps {n : ℕ} {node : Node} {p : List Step × Node} (hp : p ∈ o.plans g n node)
    {step : Step} (hstep : step ∈ p.1.head?) : step ∈ o.steps g node := by
  cases n with
  | zero =>
      rw [plans, DepthFirst.plans, List.mem_singleton] at hp
      simp [hp] at hstep
  | succ n =>
      rcases (DepthFirst.mem_plans_succ_iff _ n node p).mp hp with rfl | ⟨c, hc, q, _, rfl⟩
      · simp at hstep
      · obtain ⟨step', hmem, rfl⟩ := List.mem_map.mp hc
        simp only [List.head?_cons, Option.mem_def, Option.some.injEq] at hstep
        exact hstep ▸ hmem

theorem best_cases {s : SearchVars} (h : o.search g = some s) :
    s.best.action = .endTurn ∨ ∃ step ∈ o.steps g o.root, s.best = step.label := by
  rcases o.search_cases g h with ⟨_, hbest, _⟩ | ⟨p, hp, _, _, hbest⟩
  · exact Or.inl (by rw [hbest])
  · cases hhead : p.1.head? with
    | none => exact Or.inl (by rw [hbest, DepthFirst.firstLabel, hhead]; rfl)
    | some step =>
        refine Or.inr ⟨step, o.head_mem_steps g hp.mem hhead, ?_⟩
        rw [hbest, DepthFirst.firstLabel, hhead]
        rfl

theorem Step.label_ne_endTurn (step : Step) : step.label.action ≠ .endTurn := by
  cases step <;> simp [Step.label, makeAction, makeActionAt]

theorem refinesArgmax_of_search {s : SearchVars} (h : o.search g = some s)
    (hroot : -inf < o.score g o.root) : o.RefinesArgmax g s := by
  obtain ⟨rest, hrest⟩ := DepthFirst.exists_plans_eq_cons (o.children g) 10 o.root
  have hmem : ([], o.root) ∈ o.plans g 10 o.root := DepthFirst.nil_mem_plans _ 10 _
  rcases o.search_cases g h with ⟨hall, _⟩ | ⟨p, hp, _, hscore, hbest⟩
  · -- the root itself would not beat `-inf`
    have := hall _ hmem
    dsimp only at this
    omega
  · have hroot_max : (∀ q ∈ o.plans g 10 o.root, o.score g q.2 ≤ o.score g o.root) →
        s.best = makeAction .endTurn := by
      intro hall
      -- the root comes first in pre-order, so it is the first best plan
      have hhead : p = ([], o.root) := by
        unfold BestPlan plans at hp
        rw [hrest] at hp
        exact hp.eq_head fun q hq => hall q (by rw [plans, hrest]; exact List.mem_cons_of_mem _ hq)
      rw [hbest, hhead]
      rfl
    refine ⟨fun q hq => hscore ▸ hp.le hq, ⟨p, hp, hscore, hbest⟩, fun heq => ?_, fun hend => ?_,
      fun hall => ?_⟩
    · exact hroot_max fun q hq => by rw [heq, hscore]; exact hp.le hq
    · -- a plan with an edge has that edge's label, which is not `END_TURN`
      obtain ⟨path, node⟩ := p
      cases path with
      | cons step path =>
          rw [hbest] at hend
          exact absurd hend (Step.label_ne_endTurn step)
      | nil =>
          have hnode : node = o.root := DepthFirst.eq_of_nil_mem_plans _ hp.mem
          subst hnode
          exact fun q hq => hp.le hq
    · rw [hroot_max hall]
      rfl

/-- **`run()` refines the maximum over plans.** Once the target loop has been left and if every
    access of the search is defined, `run()` returns; and if the root scores more than `-inf`, its
    `best_score` is the maximal score of the plans of at most ten actions and its `best_action` the
    first label on the first of them to attain it. -/
theorem run_refinesArgmax (rand : ℕ → ℕ) (fuel : ℕ) (g g' : Globals)
    (hloop : targetLoop rand o fuel (o.resetTarget g) = some (true, g'))
    (hdef : o.Defined g' 10 o.root) (hroot : -inf < o.score g' o.root) :
    ∃ s, o.run rand fuel g = some (s, g') ∧ o.RefinesArgmax g' s := by
  have hsearch := o.search_eq g'
  rw [if_pos hdef] at hsearch
  exact ⟨_, (run_eq_some_iff rand fuel o g g' _).mpr ⟨hloop, hsearch⟩,
    o.refinesArgmax_of_search g' hsearch hroot⟩

end SlavaStrategy

theorem run_refinesArgmax_yard :
    ∃ s, yardStrategy.run (fun _ => 8) 1 openingGlobals = some (s, yardGlobals) ∧
      yardStrategy.RefinesArgmax yardGlobals s :=
  yardStrategy.run_refinesArgmax (fun _ => 8) 1 openingGlobals _ (targetLoop_yard rfl)
    (by decide +kernel) (by decide +kernel)

end CodeTroopers
