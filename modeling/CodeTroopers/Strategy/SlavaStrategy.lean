import CodeTroopers.Strategy.Floyd
import CodeTroopers.Library.DepthFirst

set_option autoImplicit false

/-! # The strategy object and its search

`struct SlavaStrategy` of `MyStrategy.cpp`: the members of the object, `State`, the score and
`maximize_score` with its seven branches. A run that reads a vector out of bounds, divides by the
size of an empty team or reaches `exit(10030)` has no result (`none`).

The recursion of `maximize_score` is on the number of levels left: at `left`, the incremented
`action_number` of the source is `11 - left`, so the depth cut `action_number == 11` is `left = 0`
and the guard `action_number == 1` is `left = 10`. A branch takes the recursive call as an
argument, `visit`, with the label it would write into `cur_action`.

The `int` arithmetic of the score is taken to be exact; the source leaves an overflow undefined. -/

namespace CodeTroopers

open CheckedVector

/-- `typedef Move Action`. -/
abbrev Action := Move

/-- `make_action(ActionType)`. -/
def makeAction (action : ActionType) : Action := { action := action }

/-- `make_action(ActionType, const Point&)`. -/
def makeActionAt (action : ActionType) (p : Point) : Action :=
  { action := action, x := Int32.ofInt p.x, y := Int32.ofInt p.y }

/-- The global variables of `MyStrategy.cpp`; `draws` counts the calls of `rand()` since `srand`. -/
structure Globals where
  size : BoardSize
  target : Point
  moveIndex : Int
  floydDist : DistanceTable
  draws : ℕ
deriving DecidableEq

/-- The members of the object that the constructor sets. -/
structure SlavaStrategy where
  self : Trooper
  world : World
  game : Game
  cells : Cells
  teammates : List Trooper
  enemies : List Trooper
  stances : List TrooperStance
deriving DecidableEq

/-- `struct State`. -/
structure State where
  mateDamage : Int
  damage : Int
  kills : Int
  pos : Point
  stance : TrooperStance
  hasMedkit : Bool
  hasFieldRation : Bool
  usedFieldRation : Bool
  hasGrenade : Bool
  usedGrenade : Bool
deriving DecidableEq

/-- `best_action`, `best_score` and `cur_action`. -/
abbrev SearchVars := DepthFirst.Shared Action

/-! ## One node: picking up and scoring -/

/-- The body of the pickup loop. -/
def pickUpBonus (state : State) (bonus : Bonus) : State :=
  if state.pos = bonus.pos then
    match bonus.type with
    | .medikit => { state with hasMedkit := true }
    | .fieldRation => if state.usedFieldRation then state else { state with hasFieldRation := true }
    | .grenade => if state.usedGrenade then state else { state with hasGrenade := true }
    | _ => state
  else state

/-- The pickup loop at the top of `maximize_score`. -/
def pickUp (bonuses : List Bonus) (state : State) : State := bonuses.foldl pickUpBonus state

/-- A bonus of the type lies on the point. -/
def bonusAt (bonuses : List Bonus) (p : Point) (type : BonusType) : Bool :=
  bonuses.any fun bonus => decide (p = bonus.pos) && decide (bonus.type = type)

/-- All the pickup loop does: each item is there if it was, or if it lies on the cell, except that a
    ration or grenade already used is not picked up. -/
theorem pickUp_eq (bonuses : List Bonus) (state : State) :
    pickUp bonuses state = { state with
      hasMedkit := state.hasMedkit || bonusAt bonuses state.pos .medikit
      hasFieldRation := state.hasFieldRation ||
        (!state.usedFieldRation && bonusAt bonuses state.pos .fieldRation)
      hasGrenade := state.hasGrenade ||
        (!state.usedGrenade && bonusAt bonuses state.pos .grenade) } := by
  induction bonuses generalizing state with
  | nil => simp [pickUp, bonusAt]
  | cons bonus bonuses ih =>
      have hcons : pickUp (bonus :: bonuses) state = pickUp bonuses (pickUpBonus state bonus) := rfl
      rw [hcons, ih]
      unfold pickUpBonus bonusAt
      -- picking up twice is picking up once, and the cell does not change
      by_cases hpos : state.pos = bonus.pos
      · cases htype : bonus.type <;> simp [hpos, htype] <;> split_ifs <;> simp [*]
      · simp [hpos]

/-- `Trooper::getDamage(stance)`; `none` is `exit(10030)`. -/
def Trooper.getDamage (t : Trooper) : TrooperStance → Option Int
  | .prone => some t.proneDamage.toInt
  | .kneeling => some t.kneelingDamage.toInt
  | .standing => some t.standingDamage.toInt
  | _ => none

/-- A `bool` in an `int` expression. -/
def boolToInt (c : Bool) : Int := if c then 1 else 0

/-- The conversion of an `int` to `size_t`. -/
def toSizeT (n : Int) : Int := n % 2 ^ 64

namespace SlavaStrategy

variable (o : SlavaStrategy) (g : Globals)

/-- `mates_dist`. -/
def matesDist (state : State) : Option Int :=
  o.teammates.foldlM
    (fun d mate => (minDistance g.floydDist state.pos mate.pos).map fun e => d + e) 0

/-- `close_to_commander`. -/
def closeToCommander (state : State) : Bool :=
  o.teammates.any fun mate => decide (mate.type = .commander) &&
    decide (state.pos.distanceTo mate.pos ≤ o.game.commanderAuraRange.toFloat)

/-- `state.pos.distance_to(enemy) <= game.getGrenadeThrowRange()`. -/
def inGrenadeRange (state : State) (enemy : Trooper) : Bool :=
  decide (state.pos.distanceTo enemy.pos ≤ o.game.grenadeThrowRange.toFloat)

/-- `world.isVisible` of the state's position from an enemy in the given stance. -/
def seenFrom (state : State) (enemy : Trooper) (stance : TrooperStance) : Option Bool :=
  o.world.isVisible enemy.shootingRange enemy.pos stance state.pos state.stance

/-- `is_shooting` for one enemy; the inner loop runs over the object's `stances`. -/
def isShooting (state : State) (enemy : Trooper) : Option Bool :=
  if o.inGrenadeRange state enemy then some true
  else o.stances.foldlM
    (fun shooting stance => (o.seenFrom state enemy stance).map fun v => shooting || v) false

/-- `shooting_enemies`. -/
def shootingEnemies (state : State) : Option Int :=
  o.enemies.foldlM
    (fun n enemy => (o.isShooting state enemy).map fun s => n + boolToInt s) 0

/-- `score` of a state the pickup loop has left. The quotient is taken in `size_t`; dividing by
    the size of an empty team is undefined. -/
def scoreState (state : State) : Option Int := do
  let matesDist ← o.matesDist g state
  let shootingEnemies ← o.shootingEnemies state
  let targetDist ← minDistance g.floydDist state.pos g.target
  if o.teammates.length = 0 then none
  else
    let score := 0 - 2000 * state.mateDamage + 300 * state.damage + 20000 * state.kills
      - 10000 * shootingEnemies
      + 400 * boolToInt state.hasMedkit + 400 * boolToInt state.hasFieldRation
      + 400 * boolToInt state.hasGrenade
      - toSizeT (60 * matesDist) / o.teammates.length
    let score :=
      if state.mateDamage ≥ 0 ∧ state.damage = 0 then score - 55 * targetDist else score
    some (
      if o.self.type ≠ .scout then score + 500 * boolToInt (o.closeToCommander state) else score)

/-! ## The branches -/

/-- The recursive call of a branch: the label for `cur_action`, the action points left, the new
    state and the shared variables. -/
abbrev Visit := Action → Int → State → SearchVars → Option SearchVars

/-- The loop over the mates next to the trooper and the branch for the trooper itself, shared by
    the medikit and the field medic; `after` is the new state for the healed amount. -/
def healBranch (visit : Visit) (action : ActionType) (bonusHitpoints selfBonusHitpoints : Int32)
    (after : Int → State) (points : Int) (state : State) (s : SearchVars) : Option SearchVars := do
  let s ← o.teammates.foldlM (fun s mate =>
    if state.pos.hasNeigh g.size mate.pos then
      let heal := min bonusHitpoints.toInt (mate.maximalHitpoints.toInt - mate.hitpoints.toInt)
      if heal > 0 then visit (makeActionAt action mate.pos) points (after heal) s else some s
    else some s) s
  let heal := min selfBonusHitpoints.toInt
    (o.self.maximalHitpoints.toInt - o.self.hitpoints.toInt)
  if heal > 0 then visit (makeActionAt action o.self.pos) points (after heal) s else some s

/-- The medikit branch. -/
def medikitBranch (visit : Visit) (actionPoints : Int) (state : State) (s : SearchVars) :
    Option SearchVars :=
  if state.hasMedkit then
    let points := actionPoints - o.game.medikitUseCost.toInt
    if points ≥ 0 then
      o.healBranch g visit .useMedikit o.game.medikitBonusHitpoints
        o.game.medikitHealSelfBonusHitpoints
        (fun heal => { state with mateDamage := state.mateDamage - heal, hasMedkit := false })
        points state s
    else some s
  else some s

/-- The new state of a grenade thrown at an enemy. -/
def afterGrenade (state : State) (enemy : Trooper) : State :=
  let e := enemy.pos
  let damage := o.game.grenadeDirectDamage.toInt
  let new := { state with
    damage := state.damage + damage
    kills := if damage ≥ enemy.hitpoints.toInt then state.kills + 1 else state.kills }
  let collateral := o.game.grenadeCollateralDamage.toInt
  let new := o.enemies.foldl (fun new n =>
    if e.hasNeigh g.size n.pos then
      { new with
        damage := new.damage + collateral
        kills := if collateral ≥ n.hitpoints.toInt then new.kills + 1 else new.kills }
    else new) new
  -- a teammate killed costs two kills
  let new := o.teammates.foldl (fun new n =>
    if e.hasNeigh g.size n.pos then
      { new with
        mateDamage := new.mateDamage + collateral
        kills := if collateral ≥ n.hitpoints.toInt then new.kills - 2 else new.kills }
    else new) new
  { new with hasGrenade := false, usedGrenade := true }

/-- The grenade branch. -/
def grenadeBranch (visit : Visit) (actionPoints : Int) (state : State) (s : SearchVars) :
    Option SearchVars :=
  if state.hasGrenade then
    let points := actionPoints - o.game.grenadeThrowCost.toInt
    if points ≥ 0 then
      o.enemies.foldlM (fun s enemy =>
        if o.inGrenadeRange state enemy then
          visit (makeActionAt .throwGrenade enemy.pos) points (o.afterGrenade g state enemy) s
        else some s) s
    else some s
  else some s

/-- The field medic branch. -/
def medicBranch (visit : Visit) (actionPoints : Int) (state : State) (s : SearchVars) :
    Option SearchVars :=
  if o.self.type = .fieldMedic then
    let points := actionPoints - o.game.fieldMedicHealCost.toInt
    if points ≥ 0 then
      o.healBranch g visit .heal o.game.fieldMedicHealBonusHitpoints
        o.game.fieldMedicHealSelfBonusHitpoints
        (fun heal => { state with mateDamage := state.mateDamage - heal })
        points state s
    else some s
  else some s

/-- The new state of a shot at an enemy that deals the given damage. -/
def afterShot (state : State) (damage : Int) (enemy : Trooper) : State :=
  { state with
    damage := state.damage + damage
    kills := if damage ≥ enemy.hitpoints.toInt then state.kills + 1 else state.kills }

/-- `world.isVisible` of an enemy from the state's position and stance. -/
def seesEnemy (state : State) (enemy : Trooper) : Option Bool :=
  o.world.isVisible o.self.shootingRange state.pos state.stance enemy.pos enemy.stance

/-- The shooting branch; the damage is asked for only once an enemy is visible. -/
def shootBranch (visit : Visit) (actionPoints : Int) (state : State) (s : SearchVars) :
    Option SearchVars :=
  let points := actionPoints - o.self.shootCost.toInt
  if points ≥ 0 then
    o.enemies.foldlM (fun s enemy => do
      let visible ← o.seesEnemy state enemy
      if visible then
        let damage ← o.self.getDamage state.stance
        visit (makeActionAt .shoot enemy.pos) points (afterShot state damage enemy) s
      else some s) s
  else some s

/-- The cost of a move in a stance. -/
def moveCost (stance : TrooperStance) : Int :=
  if stance = .standing then o.game.standingMoveCost.toInt
  else if stance = .kneeling then o.game.kneelingMoveCost.toInt
  else o.game.proneMoveCost.toInt

/-- The move branch. -/
def moveBranch (visit : Visit) (actionPoints : Int) (state : State) (s : SearchVars) :
    Option SearchVars :=
  let points := actionPoints - o.moveCost state.stance
  if points ≥ 0 then
    (state.pos.neighs g.size).foldlM (fun s n => do
      let cell ← cellAt o.cells n
      if cell = .free then visit (makeActionAt .move n) points { state with pos := n } s
      else some s) s
  else some s

/-- The stance branch. -/
def stanceBranch (visit : Visit) (actionPoints : Int) (state : State) (s : SearchVars) :
    Option SearchVars :=
  let points := actionPoints - o.game.stanceChangeCost.toInt
  if points ≥ 0 then do
    let s ←
      if state.stance ≠ .standing then
        visit (makeAction .raiseStance) points
          { state with stance := if state.stance = .prone then .kneeling else .standing } s
      else some s
    if state.stance ≠ .prone then
      visit (makeAction .lowerStance) points
        { state with stance := if state.stance = .standing then .kneeling else .prone } s
    else some s
  else some s

/-- The field ration branch. -/
def rationBranch (visit : Visit) (actionPoints : Int) (state : State) (s : SearchVars) :
    Option SearchVars :=
  if state.hasFieldRation then
    let points := actionPoints - o.game.fieldRationEatCost.toInt
    if points ≥ 0 then
      visit (makeAction .eatFieldRation) (points + o.game.fieldRationBonusActionPoints.toInt)
        { state with hasFieldRation := false, usedFieldRation := true } s
    else some s
  else some s

/-! ## The recursion -/

/-- `maximize_score`. -/
def maximizeScore : ℕ → Int → State → SearchVars → Option SearchVars
  | left, actionPoints, state, s => do
    let state := pickUp o.world.bonuses state
    let score ← o.scoreState g state
    let s := s.offer score
    match left with
    | 0 => some s
    | left + 1 =>
      -- `cur_action` is written at the root only
      let visit : Visit := fun action points newState s =>
        maximizeScore left points newState (if left + 1 = 10 then { s with cur := action } else s)
      let s ← o.medikitBranch g visit actionPoints state s
      let s ← o.grenadeBranch g visit actionPoints state s
      let s ← o.medicBranch g visit actionPoints state s
      let s ← o.shootBranch visit actionPoints state s
      let s ← o.moveBranch g visit actionPoints state s
      let s ← o.stanceBranch visit actionPoints state s
      o.rationBranch visit actionPoints state s

/-- The initial `State` of `run()`. -/
def initialState : State where
  mateDamage := 0
  damage := 0
  kills := 0
  pos := o.self.pos
  stance := o.self.stance
  hasMedkit := o.self.holdingMedikit
  hasFieldRation := o.self.holdingFieldRation
  usedFieldRation := false
  hasGrenade := o.self.holdingGrenade
  usedGrenade := false

/-- `best_action` as constructed, `best_score = -inf` and `cur_action = make_action(END_TURN)`. -/
def initialVars : SearchVars where
  best := {}
  bestScore := -inf
  cur := makeAction .endTurn

/-- `run()` after its target loop. -/
def search : Option SearchVars :=
  o.maximizeScore g 10 o.self.actionPoints.toInt o.initialState initialVars

end SlavaStrategy

end CodeTroopers
