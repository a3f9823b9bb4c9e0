import CodeTroopers.Library.SearchRuns
import CodeTroopers.Strategy.PlanTree
import CodeTroopers.Strategy.MyStrategy
import Mathlib.Tactic.Ring
import Mathlib.Data.Int.Cast.Lemmas

set_option autoImplicit false

/-! # What the steps of a plan do

One lemma for each field of a node says what a step of the plan tree makes of it, so that nothing
about a plan has to look at the branches of `maximize_score` again: a plan is a run of the tree
(`mem_plans_iff`), and an invariant of its nodes or an account over its steps follows from the
rules for runs. The loops of a grenade are counts (`afterGrenade_eq`). -/

namespace CodeTroopers

/-- The step is a move. -/
def Step.isMove : Step → Bool
  | .move _ => true
  | _ => false

/-- The step throws a grenade. -/
def Step.isGrenade : Step → Bool
  | .throwGrenade _ => true
  | _ => false

/-- A hit of the damage alone takes all the hitpoints the trooper is listed with. -/
def lethal (damage : Int) (t : Trooper) : Bool := decide (damage ≥ t.hitpoints.toInt)

/-! ## Picking up -/

section PickUp

variable (bonuses : List Bonus) (state : State)

@[simp] theorem pickUp_pos : (pickUp bonuses state).pos = state.pos := by rw [pickUp_eq]

@[simp] theorem pickUp_stance : (pickUp bonuses state).stance = state.stance := by rw [pickUp_eq]

@[simp] theorem pickUp_mateDamage : (pickUp bonuses state).mateDamage = state.mateDamage := by
  rw [pickUp_eq]

@[simp] theorem pickUp_damage : (pickUp bonuses state).damage = state.damage := by rw [pickUp_eq]

@[simp] theorem pickUp_kills : (pickUp bonuses state).kills = state.kills := by rw [pickUp_eq]

@[simp] theorem pickUp_hasMedkit :
    (pickUp bonuses state).hasMedkit
      = (state.hasMedkit || bonusAt bonuses state.pos .medikit) := by rw [pickUp_eq]

@[simp] theorem pickUp_usedFieldRation :
    (pickUp bonuses state).usedFieldRation = state.usedFieldRation := by rw [pickUp_eq]

@[simp] theorem pickUp_hasFieldRation :
    (pickUp bonuses state).hasFieldRation = (state.hasFieldRation ||
      (!state.usedFieldRation && bonusAt bonuses state.pos .fieldRation)) := by rw [pickUp_eq]

@[simp] theorem pickUp_usedGrenade :
    (pickUp bonuses state).usedGrenade = state.usedGrenade := by rw [pickUp_eq]

@[simp] theorem pickUp_hasGrenade :
    (pickUp bonuses state).hasGrenade = (state.hasGrenade ||
      (!state.usedGrenade && bonusAt bonuses state.pos .grenade)) := by rw [pickUp_eq]

end PickUp

namespace SlavaStrategy

variable (o : SlavaStrategy) (g : Globals)

/-! ## Grenades -/

/-- The enemies next to the cell a grenade is thrown at. -/
def blastEnemies (enemy : Trooper) : List Trooper :=
  o.enemies.filter fun n => enemy.pos.hasNeigh g.size n.pos

/-- The listed teammates next to it. -/
def blastMates (enemy : Trooper) : List Trooper :=
  o.teammates.filter fun n => enemy.pos.hasNeigh g.size n.pos

/-- What a grenade adds to the kills. -/
def grenadeKills (enemy : Trooper) : Int :=
  boolToInt (lethal o.game.grenadeDirectDamage.toInt enemy)
    + (o.blastEnemies g enemy).countP (lethal o.game.grenadeCollateralDamage.toInt)
    - 2 * (o.blastMates g enemy).countP (lethal o.game.grenadeCollateralDamage.toInt)

private theorem foldl_blastEnemies (collateral : Int) (l : List Trooper) (state : State) :
    l.foldl (fun new n =>
        { new with
          damage := new.damage + collateral
          kills := if collateral ≥ n.hitpoints.toInt then new.kills + 1 else new.kills }) state
      = { state with
          damage := state.damage + collateral * l.length
          kills := state.kills + l.countP (lethal collateral) } := by
  induction l generalizing state with
  | nil => simp
  | cons n l ih =>
      rw [List.foldl_cons, ih, List.countP_cons, List.length_cons]
      simp only [lethal, decide_eq_true_eq, State.mk.injEq, and_true, true_and]
      refine ⟨?_, ?_⟩
      · push_cast
        ring
      · split_ifs <;> push_cast <;> ring

private theorem foldl_blastMates (collateral : Int) (l : List Trooper) (state : State) :
    l.foldl (fun new n =>
        { new with
          mateDamage := new.mateDamage + collateral
          kills := if collateral ≥ n.hitpoints.toInt then new.kills - 2 else new.kills }) state
      = { state with
          mateDamage := state.mateDamage + collateral * l.length
          kills := state.kills - 2 * l.countP (lethal collateral) } := by
  induction l generalizing state with
  | nil => simp
  | cons n l ih =>
      rw [List.foldl_cons, ih, List.countP_cons, List.length_cons]
      simp only [lethal, decide_eq_true_eq, State.mk.injEq, and_true, true_and]
      refine ⟨?_, ?_⟩
      · push_cast
        ring
      · split_ifs <;> push_cast <;> ring

theorem afterGrenade_eq (state : State) (enemy : Trooper) :
    o.afterGrenade g state enemy = { state with
      damage := state.damage + o.game.grenadeDirectDamage.toInt
        + o.game.grenadeCollateralDamage.toInt * (o.blastEnemies g enemy).length
      mateDamage := state.mateDamage
        + o.game.grenadeCollateralDamage.toInt * (o.blastMates g enemy).length
      kills := state.kills + o.grenadeKills g enemy
      hasGrenade := false
      usedGrenade := true } := by
  unfold afterGrenade
  dsimp only
  -- the loops skip who is not next to the cell
  rw [← List.foldl_filter, ← List.foldl_filter, foldl_blastEnemies, foldl_blastMates]
  simp only [State.mk.injEq, true_and, and_true, blastEnemies, blastMates, grenadeKills]
  by_cases hkill : o.game.grenadeDirectDamage.toInt ≥ enemy.hitpoints.toInt
  · simp only [hkill, if_true, lethal, decide_true, boolToInt]
    ring
  · simp only [hkill, if_false, lethal, decide_false, boolToInt, Bool.false_eq_true]
    ring

/-! ## Plans are runs -/

/-- A move after the moves `before` has built the object, has left its target loop and searches
    with these globals. The plans it explores are `o.plans g 10 o.root`. -/
def Searches (rand : ℕ → ℕ) (fuel : ℕ) (before : List Turn) (turn : Turn) : Prop :=
  ∃ g₀ g₁, session rand fuel before = some g₀ ∧
    construct turn.self turn.world turn.game g₀ = some (o, g₁) ∧
    targetLoop rand o fuel (o.resetTarget g₁) = some (true, g)

/-- A plan from a node, of any length. -/
abbrev Run (node : Node) (path : List Step) (node' : Node) : Prop :=
  DepthFirst.Run (o.children g) node path node'

theorem mem_children_iff (node : Node) (c : Step × Node) :
    c ∈ o.children g node ↔ c.1 ∈ o.steps g node ∧ c.2 = o.next g node c.1 := by
  obtain ⟨step, node'⟩ := c
  simp only [children, List.mem_map, Prod.mk.injEq]
  constructor
  · intro h
    obtain ⟨step', hmem, rfl, rfl⟩ := h
    exact ⟨hmem, rfl⟩
  · intro h
    obtain ⟨hmem, rfl⟩ := h
    exact ⟨step, hmem, rfl, rfl⟩

theorem mem_plans_iff (n : ℕ) (node : Node) (p : List Step × Node) :
    p ∈ o.plans g n node ↔ o.Run g node p.1 p.2 ∧ p.1.length ≤ n :=
  DepthFirst.mem_plans_iff_run n node p

/-- **A plan goes on with the steps its end allows**, as long as it is not too long. -/
theorem snoc_mem_plans_iff {n : ℕ} {node : Node} {p : List Step × Node}
    (hp : p ∈ o.plans g n node) (hlen : p.1.length < n) (step : Step) (node' : Node) :
    (p.1 ++ [step], node') ∈ o.plans g n node
      ↔ step ∈ o.steps g p.2 ∧ node' = o.next g p.2 step := by
  constructor
  · intro h
    obtain ⟨before, hrun, hlast⟩ := ((o.mem_plans_iff g n node _).mp h).1.exists_of_snoc
    -- the steps determine the nodes
    have hbefore : before = p.2 := by
      refine DepthFirst.Run.unique ?_ hrun ((o.mem_plans_iff g n node p).mp hp).1
      intro s e t u ht hu
      exact ((o.mem_children_iff g s _).mp ht).2.trans ((o.mem_children_iff g s _).mp hu).2.symm
    rw [hbefore] at hlast
    exact (o.mem_children_iff g p.2 _).mp hlast
  · intro h
    exact DepthFirst.snoc_mem_plans hp hlen ((o.mem_children_iff g p.2 _).mpr h)

/-! ## The fields of the next node -/

variable (node : Node)

theorem next_points (step : Step) :
    (o.next g node step).points = o.pointsAfter node step := rfl

theorem next_pos (step : Step) :
    (o.next g node step).state.pos = match step with
      | .move n => n
      | _ => node.state.pos := by
  cases step <;> simp [next, enter, after, afterGrenade_eq, afterShot]

theorem next_stance (step : Step) :
    (o.next g node step).state.stance = match step with
      | .raiseStance => if node.state.stance = .prone then .kneeling else .standing
      | .lowerStance => if node.state.stance = .standing then .kneeling else .prone
      | _ => node.state.stance := by
  cases step <;> simp [next, enter, after, afterGrenade_eq, afterShot]

/-- What a step adds to the kills. -/
def killsOf : Step → Int
  | .shoot enemy damage => boolToInt (lethal damage enemy)
  | .throwGrenade enemy => o.grenadeKills g enemy
  | _ => 0

theorem next_kills (step : Step) :
    (o.next g node step).state.kills = node.state.kills + o.killsOf g step := by
  cases step with
  | shoot enemy damage =>
      by_cases hkill : damage ≥ enemy.hitpoints.toInt <;>
        simp [next, enter, after, afterShot, killsOf, lethal, hkill, boolToInt]
  | _ => simp [next, enter, after, afterGrenade_eq, killsOf]

/-- What a step adds to the damage of the team. -/
def mateDamageOf : Step → Int
  | .useMedikit _ heal => -heal
  | .heal _ heal => -heal
  | .throwGrenade enemy =>
    o.game.grenadeCollateralDamage.toInt * (o.blastMates g enemy).length
  | _ => 0

theorem next_mateDamage (step : Step) :
    (o.next g node step).state.mateDamage = node.state.mateDamage + o.mateDamageOf g step := by
  cases step <;> simp [next, enter, after, afterGrenade_eq, afterShot, mateDamageOf, sub_eq_add_neg]

/-- Using a medikit empties the hand, then the pickup loop of the next node fills it again. -/
theorem next_hasMedkit (step : Step) :
    (o.next g node step).state.hasMedkit = ((match step with
      | .useMedikit _ _ => false
      | _ => node.state.hasMedkit) ||
        bonusAt o.world.bonuses (o.next g node step).state.pos .medikit) := by
  cases step <;> simp [next, enter, after, afterGrenade_eq, afterShot]

/-- What a step adds to the damage dealt. -/
def damageOf : Step → Int
  | .shoot _ damage => damage
  | .throwGrenade enemy => o.game.grenadeDirectDamage.toInt
      + o.game.grenadeCollateralDamage.toInt * (o.blastEnemies g enemy).length
  | _ => 0

theorem next_damage (step : Step) :
    (o.next g node step).state.damage = node.state.damage + o.damageOf g step := by
  cases step <;> simp [next, enter, after, afterGrenade_eq, afterShot, damageOf, add_assoc]

/-- Only eating sets the flag of the ration, and it is never reset. -/
theorem next_usedFieldRation (step : Step) :
    (o.next g node step).state.usedFieldRation = match step with
      | .eatFieldRation => true
      | _ => node.state.usedFieldRation := by
  cases step <;> simp [next, enter, after, afterGrenade_eq, afterShot]

theorem next_hasFieldRation (step : Step) :
    (o.next g node step).state.hasFieldRation = ((match step with
      | .eatFieldRation => false
      | _ => node.state.hasFieldRation) ||
        (!(o.next g node step).state.usedFieldRation &&
          bonusAt o.world.bonuses (o.next g node step).state.pos .fieldRation)) := by
  cases step <;> simp [next, enter, after, afterGrenade_eq, afterShot]

/-- Only throwing sets the flag of the grenade, and it is never reset. -/
theorem next_usedGrenade (step : Step) :
    (o.next g node step).state.usedGrenade = match step with
      | .throwGrenade _ => true
      | _ => node.state.usedGrenade := by
  cases step <;> simp [next, enter, after, afterGrenade_eq, afterShot]

theorem next_hasGrenade (step : Step) :
    (o.next g node step).state.hasGrenade = ((match step with
      | .throwGrenade _ => false
      | _ => node.state.hasGrenade) ||
        (!(o.next g node step).state.usedGrenade &&
          bonusAt o.world.bonuses (o.next g node step).state.pos .grenade)) := by
  cases step <;> simp [next, enter, after, afterGrenade_eq, afterShot]

/-! ## Accounts over a plan -/

section Account

variable {g node} {node' : Node} {path : List Step} (hrun : o.Run g node path node')

include hrun

/-- A value to which every step adds. -/
theorem Run.account (f : Node → Int) (w : Step → Int)
    (hnext : ∀ node step, f (o.next g node step) = f node + w step) :
    f node' = f node + (path.map w).sum := by
  refine DepthFirst.Run.ledger f w (fun node c hc => ?_) hrun
  rw [((o.mem_children_iff g node c).mp hc).2]
  exact hnext node c.1

theorem Run.kills_eq : node'.state.kills = node.state.kills + (path.map (o.killsOf g)).sum :=
  Run.account o hrun (fun node => node.state.kills) (o.killsOf g) (o.next_kills g)

theorem Run.mateDamage_eq :
    node'.state.mateDamage = node.state.mateDamage + (path.map (o.mateDamageOf g)).sum :=
  Run.account o hrun (fun node => node.state.mateDamage) (o.mateDamageOf g) (o.next_mateDamage g)

theorem Run.forall_flatMap {α : Type} {entries : Step → List α} {Q : α → Prop}
    (hstep : ∀ node, ∀ step ∈ o.steps g node, ∀ x ∈ entries step, Q x) :
    ∀ x ∈ path.flatMap entries, Q x := by
  have hpath : ∀ step ∈ path, ∀ x ∈ entries step, Q x :=
    DepthFirst.Run.forall_mem (fun node c hc =>
      hstep node c.1 ((o.mem_children_iff g node c).mp hc).1) hrun
  intro x hx
  obtain ⟨step, hmem, hentry⟩ := List.mem_flatMap.mp hx
  exact hpath step hmem x hentry

end Account

end SlavaStrategy

/-- The move of the trooper that is alone in the corridor. -/
def corridorTurn : Turn := ⟨woundedTrooper, corridor [woundedTrooper] [], medikitGame⟩

/-- The globals of the move after it. -/
def secondGlobals : Globals := { corridorGlobals with moveIndex := 1 }

/-- In the corridor the target of the first move serves the second move, too. -/
theorem searches_second_move {turn : Turn} {o : SlavaStrategy}
    (hcon : SlavaStrategy.construct turn.self turn.world turn.game corridorGlobals
      = some (o, secondGlobals))
    (hpos : o.self.pos = ⟨0, 0⟩) : o.Searches secondGlobals (fun _ => 7) 1 [corridorTurn] turn := by
  refine ⟨corridorGlobals, secondGlobals, by decide +kernel, hcon, ?_⟩
  have hreset : o.resetTarget secondGlobals = secondGlobals := if_neg (by decide)
  have hgood : minDistance secondGlobals.floydDist ⟨0, 0⟩ secondGlobals.target = some 7 := by
    decide
  rw [hreset]
  simp [SlavaStrategy.targetLoop, SlavaStrategy.badTarget, hpos, hgood, inf]

end CodeTroopers
