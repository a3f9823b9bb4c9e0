import CodeTroopers.Strategy.BestPlan
import CodeTroopers.Strategy.PlanRuns
import CodeTroopers.Strategy.Threat

set_option autoImplicit false

/-! # The order of the server's lists

Nothing the search computes depends on the order in which the server lists the troopers and the
bonuses. The constructor covers the same cells and splits the troopers into the same teams; the
loops of the score and of a grenade are sums and counts; a node has the same edges out of it, in
another order. The search therefore explores the same plans with the same scores, and its maximum is
the same; the order decides only which of the best plans comes first. -/

namespace CodeTroopers

open CheckedVector

theorem bonusAt_perm {bonuses bonuses' : List Bonus} (h : bonuses'.Perm bonuses) (p : Point)
    (type : BonusType) : bonusAt bonuses' p type = bonusAt bonuses p type := by
  rw [Bool.eq_iff_iff]
  simp only [bonusAt, List.any_eq_true, h.mem_iff]

theorem pickUp_perm {bonuses bonuses' : List Bonus} (h : bonuses'.Perm bonuses) (state : State) :
    pickUp bonuses' state = pickUp bonuses state := by
  rw [pickUp_eq, pickUp_eq, bonusAt_perm h, bonusAt_perm h, bonusAt_perm h]

namespace SlavaStrategy

/-- Two strategy objects of the same move, built from lists in different orders. -/
structure Reordered (o o' : SlavaStrategy) : Prop where
  self : o'.self = o.self
  game : o'.game = o.game
  world : o'.world = { o.world with troopers := o'.world.troopers, bonuses := o'.world.bonuses }
  bonuses : o'.world.bonuses.Perm o.world.bonuses
  teammates : o'.teammates.Perm o.teammates
  enemies : o'.enemies.Perm o.enemies
  stances : o'.stances = o.stances
  cells : ∀ p, cellAt o'.cells p = cellAt o.cells p

section Compare

variable {o o' : SlavaStrategy} (h : Reordered o o') (g : Globals)

include h

theorem Reordered.isVisible_eq : o'.world.isVisible = o.world.isVisible := by
  rw [h.world]
  rfl

theorem Reordered.blast_perm (enemy : Trooper) :
    (o'.blastEnemies g enemy).Perm (o.blastEnemies g enemy) ∧
      (o'.blastMates g enemy).Perm (o.blastMates g enemy) :=
  ⟨h.enemies.filter _, h.teammates.filter _⟩

/-! ## The tree -/

theorem Reordered.root_eq : o'.root = o.root := by
  simp only [root, enter, initialState, h.self, pickUp_perm h.bonuses]

theorem Reordered.after_eq (state : State) (step : Step) :
    o'.after g state step = o.after g state step := by
  cases step with
  | throwGrenade enemy =>
      obtain ⟨henemies, hmates⟩ := h.blast_perm g enemy
      simp only [after, afterGrenade_eq, grenadeKills, h.game, henemies.length_eq, hmates.length_eq,
        henemies.countP_eq, hmates.countP_eq]
  | _ => rfl

theorem Reordered.cost_eq (state : State) (step : Step) :
    o'.cost state step = o.cost state step := by
  cases step <;> simp only [cost, moveCost, h.game, h.self]

theorem Reordered.next_eq (node : Node) (step : Step) :
    o'.next g node step = o.next g node step := by
  have hpoints : o'.pointsAfter node step = o.pointsAfter node step := by
    cases step <;> simp only [pointsAfter, h.cost_eq, h.game]
  simp only [next, enter, hpoints, h.after_eq g, pickUp_perm h.bonuses]

theorem Reordered.enabled_iff (state : State) (step : Step) :
    o'.Enabled g state step ↔ o.Enabled g state step := by
  cases step with
  | useMedikit patient heal =>
      simp only [Enabled, HealEnabled, h.game, h.self, h.teammates.mem_iff]
  | throwGrenade enemy => simp only [Enabled, inGrenadeRange, h.game, h.enemies.mem_iff]
  | heal patient heal => simp only [Enabled, HealEnabled, h.game, h.self, h.teammates.mem_iff]
  | shoot enemy damage =>
      simp only [Enabled, seesEnemy, h.isVisible_eq, h.self, h.enemies.mem_iff]
  | move n => simp only [Enabled, h.cells]
  | _ => rfl

theorem Reordered.mem_steps (node : Node) (step : Step) :
    step ∈ o'.steps g node ↔ step ∈ o.steps g node := by
  rw [mem_steps_iff, mem_steps_iff, h.cost_eq, h.enabled_iff]

/-- **A node has the same edges out of it.** -/
theorem Reordered.mem_children (node : Node) (c : Step × Node) :
    c ∈ o'.children g node ↔ c ∈ o.children g node := by
  rw [mem_children_iff, mem_children_iff, h.mem_steps, h.next_eq]

/-! ## Scores -/

/-- The loop over the teammates adds, so that their order does not matter. -/
theorem Reordered.matesDist_eq (state : State) : o'.matesDist g state = o.matesDist g state := by
  refine foldlM_perm _ (fun d mate mate' => ?_) h.teammates 0
  cases minDistance g.floydDist state.pos mate.pos <;>
    cases minDistance g.floydDist state.pos mate'.pos <;>
      simp [add_right_comm]

theorem Reordered.shootingEnemies_eq (state : State) :
    o'.shootingEnemies state = o.shootingEnemies state := by
  have hseen : o'.seenFrom state = o.seenFrom state := by
    funext enemy stance
    rw [seenFrom, seenFrom, h.isVisible_eq]
  have hrange : o'.inGrenadeRange state = o.inGrenadeRange state := by
    funext enemy
    rw [inGrenadeRange, inGrenadeRange, h.game]
  have hshooting : o'.isShooting state = o.isShooting state := by
    funext enemy
    rw [isShooting, isShooting, hseen, hrange, h.stances]
  rw [shootingEnemies, shootingEnemies, hshooting]
  refine foldlM_perm _ (fun n enemy enemy' => ?_) h.enemies 0
  cases o.isShooting state enemy <;> cases o.isShooting state enemy' <;>
    simp [add_right_comm]

/-- **The score of a state is the same.** -/
theorem Reordered.scoreState_eq (state : State) : o'.scoreState g state = o.scoreState g state := by
  have hclose : o'.closeToCommander state = o.closeToCommander state := by
    rw [Bool.eq_iff_iff]
    simp only [closeToCommander, List.any_eq_true, h.game, h.teammates.mem_iff]
  rw [scoreState, scoreState, h.matesDist_eq, h.shootingEnemies_eq, hclose, h.self,
    h.teammates.length_eq]

theorem Reordered.defined {n : ℕ} {node : Node} (hdef : o.Defined g n node) :
    o'.Defined g n node := by
  induction n generalizing node with
  | zero =>
      rw [Defined, h.scoreState_eq]
      exact hdef
  | succ n ih =>
      obtain ⟨hscore, hshots, hmoves, hsteps⟩ := hdef
      refine ⟨by rw [h.scoreState_eq]; exact hscore, ?_, ?_, fun step hstep => ?_⟩
      · simpa only [ShotsDefined, ShotDefined, seesEnemy, h.isVisible_eq, h.self,
          h.enemies.mem_iff] using hshots
      · simpa only [MovesDefined, moveCost, h.game, h.cells] using hmoves
      · rw [h.next_eq]
        exact ih (hsteps step ((h.mem_steps g node step).mp hstep))

/-- The search of the other order has the same best score, and returns the first label of a plan
    that attains it. -/
theorem Reordered.search_eq {s : SearchVars} (hsearch : o.search g = some s) :
    ∃ s', o'.search g = some s' ∧ s'.bestScore = s.bestScore ∧
      (s'.best = s.best ∨ ∃ p ∈ o.plans g 10 o.root, ∃ p' ∈ o.plans g 10 o.root,
        o.score g p.2 = s.bestScore ∧ o.score g p'.2 = s.bestScore ∧
        s.best = DepthFirst.firstLabel Step.label (makeAction .endTurn) p.1 ∧
        s'.best = DepthFirst.firstLabel Step.label (makeAction .endTurn) p'.1) := by
  have hdef : o.Defined g 10 o.root := by
    by_contra hnot
    rw [SlavaStrategy.search_eq, if_neg hnot] at hsearch
    simp at hsearch
  obtain ⟨s', hsearch'⟩ : ∃ s', o'.search g = some s' := by
    have hdef' := h.defined g hdef
    rw [← h.root_eq] at hdef'
    rw [SlavaStrategy.search_eq, if_pos hdef']
    exact ⟨_, rfl⟩
  have hplans : ∀ p, p ∈ o'.plans g 10 o'.root ↔ p ∈ o.plans g 10 o.root := by
    intro p
    rw [h.root_eq]
    exact DepthFirst.mem_plans_congr (h.mem_children g) 10 o.root p
  have hscore : ∀ node, o'.score g node = o.score g node := by
    intro node
    rw [score, score, h.scoreState_eq]
  refine ⟨s', hsearch', ?_⟩
  rcases o.search_cases g hsearch with ⟨hall, hbest, hs⟩ | ⟨p, hp, hlt, hs, hbest⟩
  · rcases o'.search_cases g hsearch' with ⟨_, hbest', hs'⟩ | ⟨p', hp', hlt', _⟩
    · exact ⟨by rw [hs, hs'], Or.inl (by rw [hbest, hbest'])⟩
    · -- no plan of either search beats `-inf`
      have hle := hall p' ((hplans p').mp hp'.mem)
      rw [hscore] at hlt'
      omega
  · rcases o'.search_cases g hsearch' with ⟨hall', _⟩ | ⟨p', hp', _, hs', hbest'⟩
    · have hle := hall' p ((hplans p).mpr hp.mem)
      rw [hscore] at hle
      omega
    · -- each best plan is one of the plans of the other search
      have hle : o.score g p'.2 ≤ o.score g p.2 := hp.le ((hplans p').mp hp'.mem)
      have hge : o'.score g p.2 ≤ o'.score g p'.2 := hp'.le ((hplans p).mpr hp.mem)
      rw [hscore, hscore] at hge
      rw [hscore] at hs'
      exact ⟨by omega, Or.inr ⟨p, hp.mem, p', (hplans p').mp hp'.mem, hs.symm, by omega, hbest,
        hbest'⟩⟩

end Compare

/-! ## The move -/

theorem targetLoop_congr {o o' : SlavaStrategy} (hpos : o'.self.pos = o.self.pos)
    (rand : ℕ → ℕ) (fuel : ℕ) (g : Globals) :
    targetLoop rand o' fuel (o'.resetTarget g) = targetLoop rand o fuel (o.resetTarget g) := by
  have htest : o'.badTarget = o.badTarget := by
    funext g
    rw [badTarget, badTarget, hpos]
  have hloop : ∀ (fuel : ℕ) (g : Globals),
      targetLoop rand o' fuel g = targetLoop rand o fuel g := by
    intro fuel
    induction fuel with
    | zero => simp only [targetLoop, htest, implies_true]
    | succ fuel ih => simp only [targetLoop, htest, ih, implies_true]
  rw [hloop, resetTarget, resetTarget, hpos]

theorem Constructed.reordered {turn turn' : Turn} {g₀ g₁ : Globals} {o o' : SlavaStrategy}
    (hc : Constructed turn g₀ o g₁) (hc' : Constructed turn' g₀ o' g₁)
    (hself : turn'.self = turn.self) (hgame : turn'.game = turn.game)
    (hworld : turn'.world = { turn.world with
      troopers := turn'.world.troopers, bonuses := turn'.world.bonuses })
    (htroopers : turn'.world.troopers.Perm turn.world.troopers)
    (hbonuses : turn'.world.bonuses.Perm turn.world.bonuses) : Reordered o o' := by
  refine ⟨?_, ?_, ?_, ?_, ?_, ?_, hc'.stances_eq.trans hc.stances_eq.symm, fun p => ?_⟩
  · rw [hc.self_eq, hc'.self_eq, hself]
  · rw [hc.game_eq, hc'.game_eq, hgame]
  · rw [hc.world_eq, hc'.world_eq]
    exact hworld
  · rw [hc.world_eq, hc'.world_eq]
    exact hbonuses
  · rw [hc.teammates_eq, hc'.teammates_eq]
    exact htroopers.filter _
  · rw [hc.enemies_eq, hc'.enemies_eq]
    exact htroopers.filter _
  · -- a cell is covered if any trooper of the list stands on it
    by_cases htrooper : ∃ t ∈ turn.world.troopers, t.pos = p
    · obtain ⟨t, ht, htp⟩ := htrooper
      rw [hc.cellAt_of_trooper p ⟨t, ht, htp⟩,
        hc'.cellAt_of_trooper p ⟨t, htroopers.mem_iff.mpr ht, htp⟩]
    · have hempty : ∀ t ∈ turn.world.troopers, t.pos ≠ p := fun t ht htp => htrooper ⟨t, ht, htp⟩
      rw [hc.cellAt_of_empty p hempty,
        hc'.cellAt_of_empty p fun t ht => hempty t (htroopers.mem_iff.mp ht), hworld]

/-- **The order of the server's lists does not matter for the value.** A move whose world lists the
    troopers and the bonuses in another order returns if the original one does, with the same
    target and the same best score, and its action begins a plan of that score. -/
theorem bestScore_reordered {rand : ℕ → ℕ} {fuel : ℕ} {turn : Turn} {troopers : List Trooper}
    {bonuses : List Bonus} {g₀ g₁ g : Globals} {o : SlavaStrategy} {s : SearchVars}
    (htroopers : troopers.Perm turn.world.troopers) (hbonuses : bonuses.Perm turn.world.bonuses)
    (hcon : construct turn.self turn.world turn.game g₀ = some (o, g₁))
    (hrun : o.run rand fuel g₁ = some (s, g)) :
    ∃ o' s', construct turn.self { turn.world with troopers := troopers, bonuses := bonuses }
        turn.game g₀ = some (o', g₁) ∧
      o'.run rand fuel g₁ = some (s', g) ∧ s'.bestScore = s.bestScore ∧
      (s'.best = s.best ∨ ∃ p ∈ o.plans g 10 o.root, ∃ p' ∈ o.plans g 10 o.root,
        o.score g p.2 = s.bestScore ∧ o.score g p'.2 = s.bestScore ∧
        s.best = DepthFirst.firstLabel Step.label (makeAction .endTurn) p.1 ∧
        s'.best = DepthFirst.firstLabel Step.label (makeAction .endTurn) p'.1) := by
  let turn' : Turn :=
    ⟨turn.self, { turn.world with troopers := troopers, bonuses := bonuses }, turn.game⟩
  -- the constructor is defined for both orders
  have hdefined : (construct turn'.self turn'.world turn'.game g₀).isSome := by
    obtain ⟨hfloyd, hcells⟩ := (isSome_construct_iff turn.self turn.world turn.game g₀).mp
      (by rw [hcon]; rfl)
    exact (isSome_construct_iff ..).mpr
      ⟨hfloyd, fun t ht => hcells t (htroopers.mem_iff.mp ht)⟩
  obtain ⟨⟨o', g₁'⟩, hcon'⟩ := Option.isSome_iff_exists.mp hdefined
  obtain rfl : g₁' = g₁ := construct_globals hcon hcon' rfl rfl rfl
  have h : Reordered o o' := (constructed_construct hcon).reordered
    (constructed_construct hcon') rfl rfl rfl htroopers hbonuses
  obtain ⟨hloop, hsearch⟩ := (run_eq_some_iff ..).mp hrun
  obtain ⟨s', hsearch', hscore⟩ := h.search_eq g hsearch
  refine ⟨o', s', hcon', (run_eq_some_iff ..).mpr ⟨?_, hsearch'⟩, hscore⟩
  rw [targetLoop_congr (congrArg Trooper.pos h.self)]
  exact hloop

end SlavaStrategy

/-- The corridor with the enemy in its middle, the troopers listed the other way round. -/
theorem bestScore_reordered_watched : ∃ s o' s' g,
    watchedStrategy.run (fun _ => 7) 0 secondGlobals = some (s, g) ∧
      SlavaStrategy.construct woundedTrooper (corridor [farEnemy, woundedTrooper] []) medikitGame
        corridorGlobals = some (o', secondGlobals) ∧
      o'.run (fun _ => 7) 0 secondGlobals = some (s', g) ∧ s'.bestScore = s.bestScore := by
  have hruns : (watchedStrategy.run (fun _ => 7) 0 secondGlobals).isSome := by decide +kernel
  obtain ⟨⟨s, g⟩, hrun⟩ := Option.isSome_iff_exists.mp hruns
  obtain ⟨o', s', hcon', hrun', hscore, _⟩ := SlavaStrategy.bestScore_reordered
    (List.Perm.swap woundedTrooper farEnemy []) (List.Perm.refl []) construct_watched hrun
  exact ⟨s, o', s', g, hrun, hcon', hrun', hscore⟩

end CodeTroopers
