import CodeTroopers.Client.VisibilityTable
import CodeTroopers.Library.MachineInt
import CodeTroopers.Strategy.MyStrategy

set_option autoImplicit false

/-! # The strategy in the integers of the machine

`floyd()`, the constructor, `maximize_score` and the functions of the points they call again, this
time with the types of the source: an `int` has 32 bits and its overflow is undefined, and the
cohesion term of the score is computed in `size_t`, which has 64 bits and wraps around. Everything
else is as in the exact model: the target loop only compares. -/

namespace CodeTroopers

/-- The result of an operation of type `int`. -/
def checkedInt (n : Int) : Option Int := MachineInt.signed? 32 n

/-- `score += factor * x`. -/
def addTerm (score factor x : Int) : Option Int := do
  let term ← checkedInt (factor * x)
  checkedInt (score + term)

/-- `score -= factor * x`. -/
def subTerm (score factor x : Int) : Option Int := do
  let term ← checkedInt (factor * x)
  checkedInt (score - term)

/-- `score -= term / size` for a `size` of type `size_t`, to which the other operands are
    converted. -/
def subQuotient (score term : Int) (size : ℕ) : Int :=
  MachineInt.toSigned 32
    (MachineInt.unsigned 64 (MachineInt.unsigned 64 score - MachineInt.unsigned 64 term / size))

/-- `n += 1` under a condition. -/
def checkedCount (c : Prop) [Decidable c] (n k : Int) : Option Int :=
  if c then checkedInt (n + k) else some n

/-- Operations of type `int` with these exact results. -/
def checkedInts (results : List Int) : Option Unit :=
  if ∀ n ∈ results, MachineInt.InRange 32 n then some () else none

/-! ## Points -/

namespace Point

/-- `has_neigh`. -/
def intHasNeigh (b : BoardSize) (q p : Point) : Option Bool :=
  if p.isCorrect b then
    (checkedInts [q.x - p.x, |q.x - p.x|, q.y - p.y, |q.y - p.y|,
      |q.x - p.x| + |q.y - p.y|]).map fun _ => decide (|q.x - p.x| + |q.y - p.y| = 1)
  else some false

/-- `neighs`. -/
def intNeighs (b : BoardSize) (p : Point) : Option (List Point) :=
  (checkedInts [p.x - 1, p.y - 1, p.x + 1, p.y + 1]).map fun _ => p.neighs b

/-- `distance_to`. -/
def intDistanceTo (q p : Point) : Option Float :=
  (checkedInts (rangeTerms q p)).map fun _ => q.distanceTo p

end Point

/-- `World::isVisible`. The index is only computed when the object is within the range. -/
def World.intIsVisible (w : World) (maxRange : Double) (viewer : Point)
    (viewerStance : TrooperStance) (object : Point) (objectStance : TrooperStance) :
    Option Bool := do
  let minStanceIndex := min viewerStance.toInt objectStance.toInt
  checkedInts (rangeTerms viewer object)
  if Float.ofInt ((object.x - viewer.x) * (object.x - viewer.x)
      + (object.y - viewer.y) * (object.y - viewer.y)) ≤ maxRange.toFloat * maxRange.toFloat then do
    checkedInts (visibilityTerms w.width.toInt w.height.toInt viewer.x viewer.y object.x object.y
      minStanceIndex)
    w.visibilityAt viewer object minStanceIndex
  else some false

/-! ## The distance table -/

def intRelaxPoint (k i : Point) (t : DistanceTable) (j : Point) : Option DistanceTable := do
  let kj ← minDistance t k j
  if kj = inf then some t
  else
    let ij ← minDistance t i j
    let ik ← minDistance t i k
    let sum ← checkedInt (ik + kj)
    setDistance t i j (min ij sum)

def intRelaxFrom (freePoints : List Point) (k : Point) (t : DistanceTable) (i : Point) :
    Option DistanceTable := do
  let ik ← minDistance t i k
  if ik = inf then some t else freePoints.foldlM (intRelaxPoint k i) t

def intRelaxAll (freePoints : List Point) (t : DistanceTable) : Option DistanceTable :=
  freePoints.foldlM (fun t k => freePoints.foldlM (intRelaxFrom freePoints k) t) t

def intConnectNeighs (b : BoardSize) (cells : Cells) (freePoints : List Point)
    (t : DistanceTable) : Option DistanceTable :=
  freePoints.foldlM (fun t p =>
    (p.intNeighs b).bind fun neighs => neighs.foldlM (connectStep cells p) t) t

def intFloyd (b : BoardSize) (cells : Cells) (floydDist : DistanceTable) :
    Option DistanceTable := do
  let freePoints ← collectFreePoints b cells
  let t ← resizeTable b floydDist
  let t ← intConnectNeighs b cells freePoints t
  intRelaxAll freePoints t

namespace SlavaStrategy

variable (o : SlavaStrategy) (g : Globals)

/-! ## The constructor -/

def intInit : Option (SlavaStrategy × Globals) := do
  let size : BoardSize := ⟨o.world.width.toInt, o.world.height.toInt⟩
  let floydDist ← intFloyd size o.world.cells g.floydDist
  some ({ o with stances := o.stances ++ [.prone, .kneeling, .standing] },
    { g with draws := 0, size := size, floydDist := floydDist })

def intConstruct (self : Trooper) (world : World) (game : Game) (g : Globals) :
    Option (SlavaStrategy × Globals) := do
  let o : SlavaStrategy :=
    { self := self, world := world, game := game, cells := [], teammates := [], enemies := [],
      stances := [] }
  let moveIndex ← checkedInt (g.moveIndex + 1)
  let g := { g with moveIndex := moveIndex }
  let (o, g) ← if g.moveIndex = 0 then o.intInit g else some (o, g)
  let o ← world.troopers.foldlM placeTrooper { o with cells := world.cells }
  some (o, g)

/-! ## The score -/

def intMatesDist (state : State) : Option Int :=
  o.teammates.foldlM (fun d mate =>
    (minDistance g.floydDist state.pos mate.pos).bind fun e => checkedInt (d + e)) 0

def intCloseToCommander (state : State) : Option Bool :=
  o.teammates.foldlM (fun close mate =>
    if mate.type = .commander then
      (state.pos.intDistanceTo mate.pos).map fun d =>
        close || decide (d ≤ o.game.commanderAuraRange.toFloat)
    else some close) false

def intInGrenadeRange (state : State) (enemy : Trooper) : Option Bool :=
  (state.pos.intDistanceTo enemy.pos).map fun d => decide (d ≤ o.game.grenadeThrowRange.toFloat)

def intSeenFrom (state : State) (enemy : Trooper) (stance : TrooperStance) : Option Bool :=
  o.world.intIsVisible enemy.shootingRange enemy.pos stance state.pos state.stance

def intIsShooting (state : State) (enemy : Trooper) : Option Bool :=
  (o.intInGrenadeRange state enemy).bind fun near =>
    if near then some true
    else o.stances.foldlM
      (fun shooting stance => (o.intSeenFrom state enemy stance).map fun v => shooting || v) false

def intShootingEnemies (state : State) : Option Int :=
  o.enemies.foldlM (fun n enemy =>
    (o.intIsShooting state enemy).bind fun s => checkedCount (s = true) n 1) 0

def intScoreState (state : State) : Option Int := do
  let matesDist ← o.intMatesDist g state
  let closeToCommander ← o.intCloseToCommander state
  let shootingEnemies ← o.intShootingEnemies state
  let targetDist ← minDistance g.floydDist state.pos g.target
  if o.teammates.length = 0 then none
  else
    let score ← subTerm 0 2000 state.mateDamage
    let score ← addTerm score 300 state.damage
    let score ← addTerm score 20000 state.kills
    let score ← subTerm score 10000 shootingEnemies
    let score ← addTerm score 400 (boolToInt state.hasMedkit)
    let score ← addTerm score 400 (boolToInt state.hasFieldRation)
    let score ← addTerm score 400 (boolToInt state.hasGrenade)
    let term ← checkedInt (60 * matesDist)
    let score := subQuotient score term o.teammates.length
    let score ←
      if state.mateDamage ≥ 0 ∧ state.damage = 0 then subTerm score 55 targetDist else some score
    if o.self.type ≠ .scout then addTerm score 500 (boolToInt closeToCommander)
    else some score

/-! ## The branches -/

def intHealBranch (visit : Visit) (action : ActionType) (bonusHitpoints selfBonusHitpoints : Int32)
    (after : Int → Option State) (points : Int) (state : State) (s : SearchVars) :
    Option SearchVars := do
  let s ← o.teammates.foldlM (fun s mate => do
    let near ← state.pos.intHasNeigh g.size mate.pos
    if near then do
      let missing ← checkedInt (mate.maximalHitpoints.toInt - mate.hitpoints.toInt)
      let heal := min bonusHitpoints.toInt missing
      if heal > 0 then do
        let new ← after heal
        visit (makeActionAt action mate.pos) points new s
      else some s
    else some s) s
  let missing ← checkedInt (o.self.maximalHitpoints.toInt - o.self.hitpoints.toInt)
  let heal := min selfBonusHitpoints.toInt missing
  if heal > 0 then do
    let new ← after heal
    visit (makeActionAt action o.self.pos) points new s
  else some s

def intMedikitBranch (visit : Visit) (actionPoints : Int) (state : State) (s : SearchVars) :
    Option SearchVars :=
  if state.hasMedkit then do
    let points ← checkedInt (actionPoints - o.game.medikitUseCost.toInt)
    if points ≥ 0 then
      o.intHealBranch g visit .useMedikit o.game.medikitBonusHitpoints
        o.game.medikitHealSelfBonusHitpoints
        (fun heal => (checkedInt (state.mateDamage - heal)).map fun d =>
          { state with mateDamage := d, hasMedkit := false })
        points state s
    else some s
  else some s

def intAfterGrenade (state : State) (enemy : Trooper) : Option State := do
  let e := enemy.pos
  let damage := o.game.grenadeDirectDamage.toInt
  let dealt ← checkedInt (state.damage + damage)
  let kills ← checkedCount (damage ≥ enemy.hitpoints.toInt) state.kills 1
  let collateral := o.game.grenadeCollateralDamage.toInt
  let new ← o.enemies.foldlM (fun new n => do
    let near ← e.intHasNeigh g.size n.pos
    if near then do
      let dealt ← checkedInt (new.damage + collateral)
      let kills ← checkedCount (collateral ≥ n.hitpoints.toInt) new.kills 1
      some { new with damage := dealt, kills := kills }
    else some new) { state with damage := dealt, kills := kills }
  let new ← o.teammates.foldlM (fun new n => do
    let near ← e.intHasNeigh g.size n.pos
    if near then do
      let dealt ← checkedInt (new.mateDamage + collateral)
      let kills ← checkedCount (collateral ≥ n.hitpoints.toInt) new.kills (-2)
      some { new with mateDamage := dealt, kills := kills }
    else some new) new
  some { new with hasGrenade := false, usedGrenade := true }

def intGrenadeBranch (visit : Visit) (actionPoints : Int) (state : State) (s : SearchVars) :
    Option SearchVars :=
  if state.hasGrenade then do
    let points ← checkedInt (actionPoints - o.game.grenadeThrowCost.toInt)
    if points ≥ 0 then
      o.enemies.foldlM (fun s enemy => do
        let near ← o.intInGrenadeRange state enemy
        if near then do
          let new ← o.intAfterGrenade g state enemy
          visit (makeActionAt .throwGrenade enemy.pos) points new s
        else some s) s
    else some s
  else some s

def intMedicBranch (visit : Visit) (actionPoints : Int) (state : State) (s : SearchVars) :
    Option SearchVars :=
  if o.self.type = .fieldMedic then do
    let points ← checkedInt (actionPoints - o.game.fieldMedicHealCost.toInt)
    if points ≥ 0 then
      o.intHealBranch g visit .heal o.game.fieldMedicHealBonusHitpoints
        o.game.fieldMedicHealSelfBonusHitpoints
        (fun heal => (checkedInt (state.mateDamage - heal)).map fun d =>
          { state with mateDamage := d })
        points state s
    else some s
  else some s

def intAfterShot (state : State) (damage : Int) (enemy : Trooper) : Option State := do
  let dealt ← checkedInt (state.damage + damage)
  let kills ← checkedCount (damage ≥ enemy.hitpoints.toInt) state.kills 1
  some { state with damage := dealt, kills := kills }

def intSeesEnemy (state : State) (enemy : Trooper) : Option Bool :=
  o.world.intIsVisible o.self.shootingRange state.pos state.stance enemy.pos enemy.stance

def intShootBranch (visit : Visit) (actionPoints : Int) (state : State) (s : SearchVars) :
    Option SearchVars := do
  let points ← checkedInt (actionPoints - o.self.shootCost.toInt)
  if points ≥ 0 then
    o.enemies.foldlM (fun s enemy => do
      let visible ← o.intSeesEnemy state enemy
      if visible then
        let damage ← o.self.getDamage state.stance
        let new ← intAfterShot state damage enemy
        visit (makeActionAt .shoot enemy.pos) points new s
      else some s) s
  else some s

def intMoveBranch (visit : Visit) (actionPoints : Int) (state : State) (s : SearchVars) :
    Option SearchVars := do
  let points ← checkedInt (actionPoints - o.moveCost state.stance)
  if points ≥ 0 then do
    let neighs ← state.pos.intNeighs g.size
    neighs.foldlM (fun s n => do
      let cell ← cellAt o.cells n
      if cell = .free then visit (makeActionAt .move n) points { state with pos := n } s
      else some s) s
  else some s

def intStanceBranch (visit : Visit) (actionPoints : Int) (state : State) (s : SearchVars) :
    Option SearchVars := do
  let points ← checkedInt (actionPoints - o.game.stanceChangeCost.toInt)
  if points ≥ 0 then do
    let s ←
      if state.stance ≠ .standing then
        visit (makeAction .raiseStance) points
          { state with stance := if state.stance = .prone then .kneeling else .standing } s
      else some s
    if state.stance ≠ .prone then
      visit (makeAction .lowerStance) points
        { state with stance := if state.stance = .standing then .kneeling else .prone } s
    else some s
  else some s

def intRationBranch (visit : Visit) (actionPoints : Int) (state : State) (s : SearchVars) :
    Option SearchVars :=
  if state.hasFieldRation then do
    let points ← checkedInt (actionPoints - o.game.fieldRationEatCost.toInt)
    if points ≥ 0 then do
      let points ← checkedInt (points + o.game.fieldRationBonusActionPoints.toInt)
      visit (makeAction .eatFieldRation) points
        { state with hasFieldRation := false, usedFieldRation := true } s
    else some s
  else some s

/-! ## The recursion -/

def intMaximizeScore : ℕ → Int → State → SearchVars → Option SearchVars
  | left, actionPoints, state, s => do
    let state := pickUp o.world.bonuses state
    let score ← o.intScoreState g state
    let s := s.offer score
    match left with
    | 0 => some s
    | left + 1 =>
      let visit : Visit := fun action points newState s =>
        intMaximizeScore left points newState
          (if left + 1 = 10 then { s with cur := action } else s)
      let s ← o.intMedikitBranch g visit actionPoints state s
      let s ← o.intGrenadeBranch g visit actionPoints state s
      let s ← o.intMedicBranch g visit actionPoints state s
      let s ← o.intShootBranch visit actionPoints state s
      let s ← o.intMoveBranch g visit actionPoints state s
      let s ← o.intStanceBranch visit actionPoints state s
      o.intRationBranch visit actionPoints state s

/-- `run()`, with the search in the integers of the machine. -/
def intRun (rand : ℕ → ℕ) (fuel : ℕ) (g : Globals) : Option (SearchVars × Globals) := do
  let (done, g) ← targetLoop rand o fuel (o.resetTarget g)
  if done then
    let s ← o.intMaximizeScore g 10 o.self.actionPoints.toInt o.initialState initialVars
    some (s, g)
  else none

end SlavaStrategy

/-! ## The process -/

def MyStrategy.intMove (rand : ℕ → ℕ) (fuel : ℕ) (turn : Turn) (g : Globals) :
    Option (Action × Globals) := do
  let (o, g) ← SlavaStrategy.intConstruct turn.self turn.world turn.game g
  let (s, g) ← o.intRun rand fuel g
  some (s.best, g)

/-- The actions of a sequence of moves, and the globals behind them. -/
def MyStrategy.intMoves (rand : ℕ → ℕ) (fuel : ℕ) :
    List Turn → Globals → Option (List Action × Globals)
  | [], g => some ([], g)
  | turn :: turns, g => do
    let (action, g) ← MyStrategy.intMove rand fuel turn g
    let (actions, g) ← intMoves rand fuel turns g
    some (action :: actions, g)

end CodeTroopers
