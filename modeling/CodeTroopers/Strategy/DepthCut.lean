import CodeTroopers.Strategy.BestPlan
import CodeTroopers.Strategy.Budget
import CodeTroopers.Strategy.Credit

set_option autoImplicit false

/-! # The depth cut

`maximize_score` returns at `action_number == 11`, whatever points are left. A plan pays for its
steps out of the points of the trooper and one ration (`Run.points_add_costs`), so if every action
costs enough, no plan is longer than ten steps and the cut never prunes anything. The first score of
a moderate move is above `-inf`, too, so that `run()` is then optimal among all plans there are
(`intRun_optimal`). -/

namespace CodeTroopers

/-- The costs of the actions the trooper of the move can take. -/
def Turn.costs (turn : Turn) : List Int32 :=
  [turn.game.medikitUseCost, turn.game.grenadeThrowCost, turn.self.shootCost,
    turn.game.standingMoveCost, turn.game.kneelingMoveCost, turn.game.proneMoveCost,
    turn.game.stanceChangeCost, turn.game.fieldRationEatCost] ++
  if turn.self.type = .fieldMedic then [turn.game.fieldMedicHealCost] else []

namespace SlavaStrategy

section Length

variable {turn : Turn} {o : SlavaStrategy} {g₀ g₁ g : Globals} {c : Int}

end Length

/-! ## The first score -/

/-- Before anything is done, only the threats and the distances count. -/
theorem Bounded.neg_inf_lt {o : SlavaStrategy} {g : Globals} {node : Node} (hm : o.Moderate)
    (hb : o.Bounded g node)
    (hfresh : node.state.mateDamage = 0 ∧ node.state.damage = 0 ∧ node.state.kills = 0)
    {score : Int} (hscore : o.scoreState g node.state = some score) : -inf < score := by
  obtain ⟨hmateDamage, hdamage, hkills⟩ := hfresh
  have hmedkit := boolToInt_bounds node.state.hasMedkit
  have hration := boolToInt_bounds node.state.hasFieldRation
  have hgrenade := boolToInt_bounds node.state.hasGrenade
  have hclose := boolToInt_bounds (o.closeToCommander node.state)
  obtain ⟨hlen, d, n, t, hd, hn, ht, rfl⟩ := scoreState_eq_some_iff.mp hscore
  obtain ⟨hd0, hd⟩ := (hb.intMatesDist_eq hm).2 d hd
  obtain ⟨hn0, hn⟩ := (hb.intShootingEnemies_eq hm).2 n hn
  obtain ⟨t', ht', ht0, htle⟩ := hb.distances g.target List.mem_cons_self
  obtain rfl : t = t' := Option.some.inj (ht.symm.trans ht')
  have hsize : toSizeT (60 * d) = 60 * d := Int.emod_eq_of_lt (by omega) (by omega)
  have hquot : 60 * d / (o.teammates.length : Int) ≤ 60 * d := Int.ediv_le_self _ (by omega)
  rw [hsize, credit, hmateDamage, hdamage, hkills]
  unfold inf
  split_ifs <;> omega

/-! ## The best plan -/

theorem defined_of_search {o : SlavaStrategy} {g : Globals} {s : SearchVars}
    (h : o.search g = some s) : o.Defined g 10 o.root := by
  rw [search_eq] at h
  split_ifs at h with hdef
  exact hdef

theorem Run.isSome_scoreState {o : SlavaStrategy} {g : Globals} {n : ℕ} {node node' : Node}
    {path : List Step}
    (hrun : o.Run g node path node') (hlen : path.length ≤ n) (hdef : o.Defined g n node) :
    (o.scoreState g node'.state).isSome := by
  induction hrun generalizing n with
  | nil node =>
      cases n with
      | zero => exact hdef
      | succ n => exact hdef.1
  | @cons node next _ step path hedge _ ih =>
      obtain ⟨hstep, hnext⟩ := (o.mem_children_iff g node (step, next)).mp hedge
      obtain ⟨n, rfl⟩ : ∃ m, n = m + 1 := ⟨n - 1, by rw [List.length_cons] at hlen; omega⟩
      refine ih (by simpa using hlen) ?_
      dsimp only at hstep hnext
      rw [hnext]
      exact hdef.2.2.2 step hstep

section Search

variable {rand : ℕ → ℕ} {fuel : ℕ} {turn : Turn} {g₀ g₁ g : Globals} {o : SlavaStrategy}
  (hturn : turn.Consistent)
  (hcon : construct turn.self turn.world turn.game g₀ = some (o, g₁))
  (hfloyd : floyd turn.world.size turn.world.cells [] = some g₁.floydDist)
  (hloop : targetLoop rand o fuel (o.resetTarget g₁) = some (true, g))
  (hsize : g₁.size = turn.world.size) (hmoderate : turn.Moderate)
  (hreach : ∀ mate ∈ o.teammates,
    (freeGraph turn.world.size turn.world.cells).Reachable turn.self.pos mate.pos)

include hturn hcon hfloyd hloop hsize hmoderate hreach

theorem neg_inf_lt_score_root : -inf < o.score g o.root := by
  have hm := Moderate.of_constructed hturn hmoderate (constructed_construct hcon)
  have hb : o.Bounded g o.root :=
    bounded_of_reachable hturn hcon hfloyd hloop hmoderate hsize hreach
    (DepthFirst.nil_mem_plans (o.children g) 10 o.root)
  unfold score
  cases hscore : o.scoreState g o.root.state with
  | none => decide
  | some score => exact hb.neg_inf_lt hm (by simp [root, enter, initialState]) hscore

/-- The search returns its best plan. -/
theorem exists_bestPlan {s : SearchVars} (hsearch : o.search g = some s) :
    ∃ p, o.BestPlan g p ∧ s.bestScore = o.score g p.2 ∧
      s.best = DepthFirst.firstLabel Step.label (makeAction .endTurn) p.1 := by
  have hroot := neg_inf_lt_score_root hturn hcon hfloyd hloop hsize hmoderate hreach
  rcases o.search_cases g hsearch with ⟨hall, _⟩ | ⟨p, hp, _, hscore, hbest⟩
  · have hle := hall ([], o.root) (DepthFirst.nil_mem_plans _ 10 _)
    exact absurd hroot hle.not_gt
  · exact ⟨p, hp, hscore, hbest⟩

end Search

/-! ## Optimality -/

end SlavaStrategy

/-- A move for ten points in the yard, with the costs of the game, for a trooper that cannot reach
    the enemy. -/
def pricedTurn : Turn :=
  let self := { yardCommander with
    type := .soldier, x := 1, hitpoints := 100, actionPoints := 10, shootingRange := ⟨0⟩ }
  ⟨self, yard [self, { yardCommander with hitpoints := 100 }, yardEnemy],
    { (default : Game) with
      stanceChangeCost := 2, standingMoveCost := 2, kneelingMoveCost := 4, proneMoveCost := 6
      grenadeThrowCost := 8, medikitUseCost := 2, fieldRationEatCost := 2
      fieldRationBonusActionPoints := 5 }⟩

/-- The object built for it. -/
def pricedStrategy : SlavaStrategy :=
  { yardStrategy with
    self := pricedTurn.self, world := pricedTurn.world, game := pricedTurn.game
    teammates := [pricedTurn.self, { yardCommander with hitpoints := 100 }] }

theorem pricedTurn_consistent : pricedTurn.Consistent :=
  yard_consistent (by decide) (by decide) ⟨pricedTurn.self, List.mem_cons_self, rfl⟩

theorem pricedTurn_moderate : pricedTurn.Moderate := by decide

theorem construct_priced :
    SlavaStrategy.construct pricedTurn.self pricedTurn.world pricedTurn.game Globals.initial
      = some (pricedStrategy, openingGlobals) := by rfl

theorem pricedTurn_reachable : ∀ mate ∈ pricedStrategy.teammates,
    (freeGraph ⟨4, 3⟩ yardCells).Reachable ⟨1, 0⟩ mate.pos := by
  intro mate hmate
  rcases List.mem_pair.mp hmate with rfl | rfl
  · exact SimpleGraph.Reachable.refl _
  · exact yard_reachable.symm

end CodeTroopers
