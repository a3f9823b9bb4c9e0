import CodeTroopers.Strategy.PlanRuns

set_option autoImplicit false

/-! # The budget of a plan

`maximize_score` subtracts the cost of every action from the action points, in the stance the
trooper has at that moment, and adds some for a field ration. The account of a plan is exact
(`points_add_costs`). The flags `used_field_ration` and `used_grenade` keep the pickup loop from
filling the hand again, so that a plan eats one ration and throws one grenade at most, whatever lies
on its way; with them the account is a bound on what the plan costs (`plan_within_budget`). -/

namespace CodeTroopers

/-- The step eats a field ration. -/
def Step.isEatFieldRation : Step → Bool
  | .eatFieldRation => true
  | _ => false

/-- The field ration is eaten and there is none in hand. -/
def State.RationSpent (state : State) : Prop :=
  state.usedFieldRation = true ∧ state.hasFieldRation = false

/-- The grenade is thrown and there is none in hand. -/
def State.GrenadeSpent (state : State) : Prop :=
  state.usedGrenade = true ∧ state.hasGrenade = false

namespace SlavaStrategy

variable (o : SlavaStrategy) (g : Globals)

/-- The nodes a path goes through, the one it starts from first. -/
def nodesFrom : Node → List Step → List Node
  | node, [] => [node]
  | node, step :: path => node :: nodesFrom (o.next g node step) path

/-- What the steps of a path cost, each in the state it is taken in. -/
def costsFrom : Node → List Step → List Int
  | _, [] => []
  | node, step :: path => o.cost node.state step :: costsFrom (o.next g node step) path

/-! ## One ration and one grenade -/

section Spent

variable {node : Node} {step : Step}

theorem rationSpent_next (h : node.state.RationSpent) :
    (o.next g node step).state.RationSpent := by
  obtain ⟨hused, hhas⟩ := h
  have hused' : (o.next g node step).state.usedFieldRation = true := by
    rw [next_usedFieldRation]
    cases step <;> first | rfl | exact hused
  refine ⟨hused', ?_⟩
  rw [next_hasFieldRation, hused', hhas]
  cases step <;> rfl

/-- Eating spends the ration. The pickup loop of the next node finds the flag set. -/
theorem rationSpent_of_eat : (o.next g node .eatFieldRation).state.RationSpent := by
  have hused : (o.next g node .eatFieldRation).state.usedFieldRation = true := by
    rw [next_usedFieldRation]
  refine ⟨hused, ?_⟩
  rw [next_hasFieldRation, hused]
  rfl

theorem grenadeSpent_next (h : node.state.GrenadeSpent) :
    (o.next g node step).state.GrenadeSpent := by
  obtain ⟨hused, hhas⟩ := h
  have hused' : (o.next g node step).state.usedGrenade = true := by
    rw [next_usedGrenade]
    cases step <;> first | rfl | exact hused
  refine ⟨hused', ?_⟩
  rw [next_hasGrenade, hused', hhas]
  cases step <;> rfl

theorem grenadeSpent_of_throw (enemy : Trooper) :
    (o.next g node (.throwGrenade enemy)).state.GrenadeSpent := by
  have hused : (o.next g node (.throwGrenade enemy)).state.usedGrenade = true := by
    rw [next_usedGrenade]
  refine ⟨hused, ?_⟩
  rw [next_hasGrenade, hused]
  rfl

end Spent

section Runs

variable {g} {node node' : Node} {path : List Step} (hrun : o.Run g node path node')

include hrun

theorem Run.countP_isEatFieldRation_le_one : path.countP Step.isEatFieldRation ≤ 1 := by
  refine DepthFirst.Run.countP_le_one (S := fun node => node.state.RationSpent)
    (fun node h c hc => ?_) (fun node h c hc => ?_) (fun node c hc heat => ?_) hrun
  · rw [((o.mem_children_iff g node c).mp hc).2]
    exact o.rationSpent_next g h
  · obtain ⟨step, node'⟩ := c
    have hstep := ((o.mem_children_iff g node (step, node')).mp hc).1
    have henabled := ((o.mem_steps_iff g node step).mp hstep).2
    cases step with
    | eatFieldRation =>
        have hhas : node.state.hasFieldRation = true := henabled
        exact absurd (hhas.symm.trans h.2) (by decide)
    | _ => rfl
  · obtain ⟨step, node'⟩ := c
    rw [((o.mem_children_iff g node (step, node')).mp hc).2]
    cases step with
    | eatFieldRation => exact o.rationSpent_of_eat g
    | _ => exact absurd heat (by simp [Step.isEatFieldRation])

theorem Run.countP_isGrenade_le_one : path.countP Step.isGrenade ≤ 1 := by
  refine DepthFirst.Run.countP_le_one (S := fun node => node.state.GrenadeSpent)
    (fun node h c hc => ?_) (fun node h c hc => ?_) (fun node c hc hthrow => ?_) hrun
  · rw [((o.mem_children_iff g node c).mp hc).2]
    exact o.grenadeSpent_next g h
  · obtain ⟨step, node'⟩ := c
    have hstep := ((o.mem_children_iff g node (step, node')).mp hc).1
    have henabled := ((o.mem_steps_iff g node step).mp hstep).2
    cases step with
    | throwGrenade enemy =>
        have hhas : node.state.hasGrenade = true := henabled.1
        exact absurd (hhas.symm.trans h.2) (by decide)
    | _ => rfl
  · obtain ⟨step, node'⟩ := c
    rw [((o.mem_children_iff g node (step, node')).mp hc).2]
    cases step with
    | throwGrenade enemy => exact o.grenadeSpent_of_throw g enemy
    | _ => exact absurd hthrow (by simp [Step.isGrenade])

/-! ## The account of the action points -/

/-- **The account of a plan**: what is left at its end and what it has cost come to the points it
    started with and those of the rations. -/
theorem Run.points_add_costs :
    node'.points + (o.costsFrom g node path).sum = node.points
      + o.game.fieldRationBonusActionPoints.toInt * path.countP Step.isEatFieldRation := by
  induction hrun with
  | nil node => simp [costsFrom]
  | @cons node next _ step path hedge _ ih =>
      obtain ⟨_, hnext⟩ := (o.mem_children_iff g node (step, next)).mp hedge
      dsimp only at hnext
      have hpoints := o.next_points g node step
      rw [← hnext] at hpoints
      rw [costsFrom, List.sum_cons, List.countP_cons, ← hnext]
      cases step with
      | eatFieldRation =>
          rw [pointsAfter] at hpoints
          simp only [Step.isEatFieldRation, if_true]
          push_cast
          rw [mul_add, mul_one]
          omega
      | _ =>
          simp only [pointsAfter] at hpoints
          simp only [Step.isEatFieldRation, Bool.false_eq_true, if_false, Nat.add_zero]
          omega

theorem Run.mem_nodesFrom : node' ∈ o.nodesFrom g node path := by
  induction hrun with
  | nil node => simp [nodesFrom]
  | @cons node next _ step path hedge _ ih =>
      have hnext := ((o.mem_children_iff g node (step, next)).mp hedge).2
      dsimp only at hnext
      rw [nodesFrom, ← hnext]
      exact List.mem_cons_of_mem _ ih

theorem Run.points_nonneg (hbonus : 0 ≤ o.game.fieldRationBonusActionPoints.toInt)
    (hnode : 0 ≤ node.points) : ∀ m ∈ o.nodesFrom g node path, 0 ≤ m.points := by
  induction hrun with
  | nil node => simpa [nodesFrom] using hnode
  | @cons node next _ step path hedge _ ih =>
      obtain ⟨hstep, hnext⟩ := (o.mem_children_iff g node (step, next)).mp hedge
      dsimp only at hstep hnext
      have hcost := ((o.mem_steps_iff g node step).mp hstep).1
      have hpoints := o.next_points g node step
      rw [← hnext] at hpoints
      have hnext_nonneg : 0 ≤ next.points := by
        rw [hpoints]
        cases step <;> simp only [pointsAfter] <;> omega
      rw [nodesFrom, ← hnext]
      exact List.forall_mem_cons.mpr ⟨hnode, ih hnext_nonneg⟩

end Runs

/-- What a plan costs is paid from the points it starts with and those of one ration. -/
theorem Run.sum_costs_le {g : Globals} {node node' : Node} {path : List Step}
    (hrun : o.Run g node path node') (hbonus : 0 ≤ o.game.fieldRationBonusActionPoints.toInt)
    (hnode : 0 ≤ node.points) :
    (o.costsFrom g node path).sum
      ≤ node.points + o.game.fieldRationBonusActionPoints.toInt := by
  have haccount := Run.points_add_costs o hrun
  have hend : 0 ≤ node'.points :=
    Run.points_nonneg o hrun hbonus hnode node' (Run.mem_nodesFrom o hrun)
  have hration : o.game.fieldRationBonusActionPoints.toInt * path.countP Step.isEatFieldRation
      ≤ o.game.fieldRationBonusActionPoints.toInt * 1 :=
    Int.mul_le_mul_of_nonneg_left (by exact_mod_cast Run.countP_isEatFieldRation_le_one o hrun)
      hbonus
  omega

/-- **A plan stays within its budget.** If eating a ration takes no points away and the trooper
    starts with none owed, every plan the search explores eats at most one ration and throws at most
    one grenade, has no node with negative points, and costs at most the points of the trooper and
    those of one ration. The points are exact: this is about the runs of the search in which no
    `int` overflows. -/
theorem plan_within_budget (hbonus : 0 ≤ o.game.fieldRationBonusActionPoints.toInt)
    (hself : 0 ≤ o.self.actionPoints.toInt) {p : List Step × Node}
    (hp : p ∈ o.plans g 10 o.root) :
    p.1.countP Step.isEatFieldRation ≤ 1 ∧ p.1.countP Step.isGrenade ≤ 1 ∧
      (∀ node ∈ o.nodesFrom g o.root p.1, 0 ≤ node.points) ∧
      (o.costsFrom g o.root p.1).sum
        ≤ o.self.actionPoints.toInt + o.game.fieldRationBonusActionPoints.toInt := by
  have hrun := ((o.mem_plans_iff g 10 o.root p).mp hp).1
  exact ⟨Run.countP_isEatFieldRation_le_one o hrun, Run.countP_isGrenade_le_one o hrun,
    Run.points_nonneg o hrun hbonus hself, Run.sum_costs_le o hrun hbonus hself⟩

end SlavaStrategy

/-- A trooper with a field ration in hand stands on another one, too poor for a move. -/
def hungryTurn : Turn :=
  let self := { woundedTrooper with holdingFieldRation := true }
  ⟨self, corridor [self] [⟨0, 0, 0, .fieldRation⟩],
    { medikitGame with fieldRationEatCost := 2, fieldRationBonusActionPoints := 5 }⟩

/-- The object built for it. -/
def hungryStrategy : SlavaStrategy where
  self := hungryTurn.self
  world := hungryTurn.world
  game := hungryTurn.game
  cells := [.lowCover] :: List.replicate 7 [.free]
  teammates := [hungryTurn.self]
  enemies := []
  stances := []

/-- It eats and can then pay for the move. -/
def mealAndMove : List Step × Node :=
  let path := [Step.eatFieldRation, .move ⟨1, 0⟩]
  (path, path.foldl (hungryStrategy.next secondGlobals) hungryStrategy.root)

/-- The meal is the only one, and costs five points of the seven there are. -/
theorem mealAndMove_within_budget :
    mealAndMove.1.countP Step.isEatFieldRation ≤ 1 ∧ mealAndMove.1.countP Step.isGrenade ≤ 1 ∧
      (∀ node ∈ hungryStrategy.nodesFrom secondGlobals hungryStrategy.root mealAndMove.1,
        0 ≤ node.points) ∧
      (hungryStrategy.costsFrom secondGlobals hungryStrategy.root mealAndMove.1).sum ≤ 2 + 5 :=
  hungryStrategy.plan_within_budget secondGlobals (by decide) (by decide) (p := mealAndMove)
    (by decide)

end CodeTroopers
