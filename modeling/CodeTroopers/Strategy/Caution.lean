import CodeTroopers.Strategy.DepthCut

set_option autoImplicit false

/-! # No step into the fire for nothing

A plan that neither attacks nor heals can only gain by the items it picks up and by what it is
nearer to. Ten steps change a distance by at most ten (`ExactTable.le_add_length`), so that all of
this is worth less than a single enemy that can shoot at the trooper (`threats_le_of_quiet`). The
best plan of a move therefore never ends under more fire than it began, unless it attacks or heals
(`intRun_not_exposed`). -/

namespace CodeTroopers

open CheckedVector

/-- A step that neither attacks nor heals. -/
def Step.isQuiet : Step → Bool
  | .move _ | .raiseStance | .lowerStance | .eatFieldRation => true
  | _ => false

/-! ## Distances along a walk -/

theorem ExactTable.le_add_length {b : BoardSize} {cells : Cells} {t : DistanceTable}
    (ht : ExactTable b cells t) {p q r : Point} (w : (freeGraph b cells).Walk p q) {u v : Int}
    (hu : minDistance t p r = some u) (hv : minDistance t q r = some v) (hne : v ≠ inf) :
    u ≤ v + w.length := by
  by_cases hlen : 0 < w.length
  · obtain ⟨d, hd, hle, hlt⟩ := ht.exists_le_length w hlen
    have hadd := ht.le_add hu hd hv hlt.ne hne
    omega
  · obtain rfl := SimpleGraph.Walk.eq_of_length_eq_zero (Nat.eq_zero_of_not_pos hlen)
    rw [hu, Option.some.injEq] at hv
    omega

namespace SlavaStrategy

variable {o : SlavaStrategy} {g : Globals}

/-! ## Quiet plans -/

/-- A quiet plan does no damage, heals nobody and kills nobody. -/
theorem Run.fresh_of_quiet {path : List Step} {node : Node} (hrun : o.Run g o.root path node)
    (hquiet : ∀ step ∈ path, step.isQuiet = true) :
    node.state.mateDamage = 0 ∧ node.state.damage = 0 ∧ node.state.kills = 0 := by
  have hsum : ∀ w : Step → Int, (∀ step, step.isQuiet = true → w step = 0) →
      (path.map w).sum = 0 := by
    intro w hw
    refine List.sum_eq_zero fun n hn => ?_
    obtain ⟨step, hmem, rfl⟩ := List.mem_map.mp hn
    exact hw step (hquiet step hmem)
  have hdamage :=
    Run.account o hrun (fun node => node.state.damage) (o.damageOf g) (o.next_damage g)
  rw [hsum _ fun step hstep => by
    cases step <;> simp [Step.isQuiet, damageOf] at hstep ⊢] at hdamage
  have hmateDamage := Run.mateDamage_eq o hrun
  rw [hsum _ fun step hstep => by
    cases step <;> simp [Step.isQuiet, mateDamageOf] at hstep ⊢] at hmateDamage
  have hkills := Run.kills_eq o hrun
  rw [hsum _ fun step hstep => by cases step <;> simp [Step.isQuiet, killsOf] at hstep ⊢] at hkills
  have hroot : o.root.state.mateDamage = 0 ∧ o.root.state.damage = 0 ∧ o.root.state.kills = 0 := by
    simp [root, enter, initialState]
  obtain ⟨h₁, h₂, h₃⟩ := hroot
  exact ⟨by rw [hmateDamage, h₁]; rfl, by rw [hdamage, h₂]; rfl, by rw [hkills, h₃]; rfl⟩

/-! ## What nearness is worth -/

theorem matesDist_le {state state' : State} {c : Int}
    (h : ∀ mate ∈ o.teammates, ∃ u v, minDistance g.floydDist state.pos mate.pos = some u ∧
      minDistance g.floydDist state'.pos mate.pos = some v ∧ u ≤ v + c) :
    ∃ d d', o.matesDist g state = some d ∧ o.matesDist g state' = some d' ∧
      d ≤ d' + c * o.teammates.length := by
  obtain ⟨us, vs, hus, hvs, hle⟩ := exists_mapM_sum_le o.teammates h
  refine ⟨us.sum, vs.sum, ?_, ?_, ?_⟩
  · rw [matesDist_eq, mateDistances, hus]
    rfl
  · rw [matesDist_eq, mateDistances, hvs]
    rfl
  · rw [nsmul_eq_mul, mul_comm] at hle
    exact hle

/-- Without attack and healing only the items are credited. -/
theorem credit_of_fresh {state : State}
    (h : state.mateDamage = 0 ∧ state.damage = 0 ∧ state.kills = 0) :
    0 ≤ credit state ∧ credit state ≤ 1200 := by
  obtain ⟨hmateDamage, hdamage, hkills⟩ := h
  have hmedkit := boolToInt_bounds state.hasMedkit
  have hration := boolToInt_bounds state.hasFieldRation
  have hgrenade := boolToInt_bounds state.hasGrenade
  rw [credit, hmateDamage, hdamage, hkills]
  omega

theorem shootingEnemies_of_scoreState {state : State} {score : Int}
    (h : o.scoreState g state = some score) : ∃ n, o.shootingEnemies state = some n := by
  obtain ⟨_, _, n, _, _, hn, _⟩ := scoreState_eq_some_iff.mp h
  exact ⟨n, hn⟩

/-- **A quiet plan that scores no less ends under no more fire.** -/
theorem threats_le_of_quiet {node : Node} (hm : o.Moderate) (hroot : o.Bounded g o.root)
    (hb : o.Bounded g node)
    (hfresh : node.state.mateDamage = 0 ∧ node.state.damage = 0 ∧ node.state.kills = 0)
    (hnear : ∀ q ∈ g.target :: o.teammates.map Trooper.pos,
      ∃ u v, minDistance g.floydDist o.root.state.pos q = some u ∧
        minDistance g.floydDist node.state.pos q = some v ∧ u ≤ v + 10)
    {score score' n n' : Int} (hscore : o.scoreState g o.root.state = some score)
    (hscore' : o.scoreState g node.state = some score') (hle : score ≤ score')
    (hn : o.shootingEnemies o.root.state = some n)
    (hn' : o.shootingEnemies node.state = some n') : n' ≤ n := by
  obtain ⟨hlen, d, m, t, hd, hm', ht, rfl⟩ := scoreState_eq_some_iff.mp hscore
  obtain ⟨-, d', m', t', hd', hm'', ht', rfl⟩ := scoreState_eq_some_iff.mp hscore'
  obtain rfl : m = n := Option.some.inj (hm'.symm.trans hn)
  obtain rfl : m' = n' := Option.some.inj (hm''.symm.trans hn')
  -- the distances are at most ten steps apart
  have htarget : t ≤ t' + 10 := by
    obtain ⟨u, v, hu, hv, hdiff⟩ := hnear g.target List.mem_cons_self
    obtain rfl := Option.some.inj (hu.symm.trans ht)
    obtain rfl := Option.some.inj (hv.symm.trans ht')
    exact hdiff
  have hmates : d ≤ d' + 10 * o.teammates.length := by
    obtain ⟨u, v, hu, hv, hdiff⟩ := matesDist_le (o := o) (g := g) (c := 10) fun mate hmate =>
      hnear mate.pos (List.mem_cons_of_mem _ (List.mem_map_of_mem hmate))
    obtain rfl := Option.some.inj (hu.symm.trans hd)
    obtain rfl := Option.some.inj (hv.symm.trans hd')
    exact hdiff
  obtain ⟨hd0, hdle⟩ := (hroot.intMatesDist_eq hm).2 d hd
  obtain ⟨hd0', hdle'⟩ := (hb.intMatesDist_eq hm).2 d' hd'
  have hquot : 60 * d / (o.teammates.length : Int) ≤ 60 * d' / o.teammates.length + 600 := by
    rw [← Int.add_mul_ediv_right _ _ (by omega)]
    exact Int.ediv_le_ediv (by omega) (by omega)
  have hsize : toSizeT (60 * d) = 60 * d := Int.emod_eq_of_lt (by omega) (by omega)
  have hsize' : toSizeT (60 * d') = 60 * d' := Int.emod_eq_of_lt (by omega) (by omega)
  -- so the items and the nearness are worth less than one threat
  have hitem : 0 ≤ credit o.root.state ∧ credit o.root.state ≤ 1200 :=
    credit_of_fresh (by simp [root, enter, initialState])
  have hitem' := credit_of_fresh hfresh
  have hclose := boolToInt_bounds (o.closeToCommander o.root.state)
  have hclose' := boolToInt_bounds (o.closeToCommander node.state)
  have hcounts : TargetCounts o.root.state := by simp [TargetCounts, root, enter, initialState]
  have hcounts' : TargetCounts node.state := ⟨hfresh.1.ge, hfresh.2.1⟩
  rw [hsize, hsize', if_pos hcounts, if_pos hcounts'] at hle
  split_ifs at hle <;> omega

/-! ## The best plan -/

/-- **A move steps into no more fire for nothing.** A moderate move with its team connected and a
    target found returns in the integers of the machine the first label of the first best plan; and
    no best plan that neither attacks nor heals ends where more enemies count as shooting at the
    trooper than where it stands. -/
theorem intRun_not_exposed {rand : ℕ → ℕ} {fuel : ℕ} {turn : Turn} {g₀ g₁ : Globals}
    (hturn : turn.Consistent)
    (hcon : construct turn.self turn.world turn.game g₀ = some (o, g₁))
    (hfloyd : floyd turn.world.size turn.world.cells [] = some g₁.floydDist)
    (hloop : targetLoop rand o fuel (o.resetTarget g₁) = some (true, g))
    (hsize : g₁.size = turn.world.size) (hmoderate : turn.Moderate)
    (hreach : ∀ mate ∈ o.teammates,
      (freeGraph turn.world.size turn.world.cells).Reachable turn.self.pos mate.pos) :
    ∃ s p n, o.intRun rand fuel g₁ = some (s, g) ∧ o.BestPlan g p ∧
      s.best = DepthFirst.firstLabel Step.label (makeAction .endTurn) p.1 ∧
      s.bestScore = o.score g p.2 ∧ o.shootingEnemies o.root.state = some n ∧
      ∀ path node, o.Run g o.root path node → path.length ≤ 10 → o.score g node = s.bestScore →
        (∀ step ∈ path, step.isQuiet = true) →
          ∃ n', o.shootingEnemies node.state = some n' ∧ n' ≤ n := by
  have hm := Moderate.of_constructed hturn hmoderate (constructed_construct hcon)
  obtain ⟨s, hint, hrun⟩ := exists_intRun hturn hcon hfloyd hloop hmoderate hsize hreach
  obtain ⟨_, hsearch⟩ := (run_eq_some_iff ..).mp hrun
  obtain ⟨p, hp, hscore, hbest⟩ :=
    exists_bestPlan hturn hcon hfloyd hloop hsize hmoderate hreach hsearch
  have hnil := DepthFirst.nil_mem_plans (o.children g) 10 o.root
  have hroot := bounded_of_reachable hturn hcon hfloyd hloop hmoderate hsize hreach hnil
  obtain ⟨v, hv⟩ := Option.isSome_iff_exists.mp
    (Run.isSome_scoreState (.nil o.root) (Nat.zero_le 10) (defined_of_search hsearch))
  obtain ⟨n, hn⟩ := shootingEnemies_of_scoreState hv
  refine ⟨s, p, n, hint, hp, hbest, hscore, hn, fun path node hpath hlen hsame hquiet => ?_⟩
  have hplan : (path, node) ∈ o.plans g 10 o.root :=
    (o.mem_plans_iff g 10 o.root _).mpr ⟨hpath, hlen⟩
  have hb := bounded_of_reachable hturn hcon hfloyd hloop hmoderate hsize hreach hplan
  -- the score at the end is defined, too, and no less
  obtain ⟨v', hv'⟩ := Option.isSome_iff_exists.mp
    (Run.isSome_scoreState hpath hlen (defined_of_search hsearch))
  obtain ⟨n', hn'⟩ := shootingEnemies_of_scoreState hv'
  have hle : v ≤ v' := by
    have hle := hp.le hnil
    dsimp only at hle
    rw [← hscore, ← hsame] at hle
    simpa only [score, hv, hv', Option.getD_some] using hle
  refine ⟨n', hn', threats_le_of_quiet hm hroot hb (Run.fresh_of_quiet hpath hquiet)
    (fun q hq => ?_) hv hv' hle hn hn'⟩
  -- a walk of at most ten steps leads from the trooper's cell to the end
  obtain ⟨ht, -⟩ :=
    exactTable_of_targetLoop hcon hturn.cells hturn.length_freePoints_le hfloyd hloop
  obtain ⟨w, hw⟩ :=
    exists_walk_of_targetLoop hcon hturn.cells hturn.length_freePoints_le hfloyd hloop hplan
  have hmoves : w.length ≤ 10 := hw.le.trans ((List.countP_le_length ..).trans hlen)
  obtain ⟨u, hu, -⟩ := hroot.distances q hq
  obtain ⟨v, hv, -, hfar⟩ := hb.distances q hq
  have hstart : o.root.state.pos = turn.self.pos := by
    rw [o.root_state.2.1, (constructed_construct hcon).self_eq]
  refine ⟨u, v, hu, hv, ?_⟩
  rw [hstart] at hu
  have hadd := ht.le_add_length w hu hv (by unfold inf; omega)
  omega

end SlavaStrategy

/-- The enemy in the corner of the yard does not see the trooper's cell, but the next one. -/
theorem intRun_not_exposed_priced :
    (∃ s p, pricedStrategy.intRun (fun _ => 8) 1 openingGlobals = some (s, yardGlobals) ∧
      pricedStrategy.BestPlan yardGlobals p ∧
      s.best = DepthFirst.firstLabel Step.label (makeAction .endTurn) p.1 ∧
      s.bestScore = pricedStrategy.score yardGlobals p.2 ∧
      ∀ path node, pricedStrategy.Run yardGlobals pricedStrategy.root path node →
        path.length ≤ 10 → pricedStrategy.score yardGlobals node = s.bestScore →
        (∀ step ∈ path, step.isQuiet = true) →
          ∃ n', pricedStrategy.shootingEnemies node.state = some n' ∧ n' ≤ 0) ∧
    .move ⟨2, 0⟩ ∈ pricedStrategy.steps yardGlobals pricedStrategy.root ∧
      pricedStrategy.shootingEnemies
        (pricedStrategy.next yardGlobals pricedStrategy.root (.move ⟨2, 0⟩)).state = some 1 := by
  obtain ⟨s, p, n, hint, hp, hbest, hscore, hn, hquiet⟩ :=
    SlavaStrategy.intRun_not_exposed pricedTurn_consistent construct_priced floyd_yard
      (targetLoop_yard rfl) rfl pricedTurn_moderate pricedTurn_reachable
  have hnone : pricedStrategy.shootingEnemies pricedStrategy.root.state = some 0 := by
    decide +kernel
  obtain rfl : n = 0 := Option.some.inj (hn.symm.trans hnone)
  exact ⟨⟨s, p, hint, hp, hbest, hscore, hquiet⟩, by decide +kernel, by decide +kernel⟩

end CodeTroopers
