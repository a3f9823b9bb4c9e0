import CodeTroopers.Model.Enums

set_option autoImplicit false

/-! # The data of a game

The value classes of `model/*.h`, with every field the client reads or writes. An `int` is an
`Int32` and a `long long` an `Int64`; a `double` is kept as its 64-bit pattern, since the client
copies patterns and only the strategy computes with them, through `Double.toFloat`. The `Unit`
base class (`id`, `x`, `y`) is folded into `Trooper` and `Bonus`. -/

namespace CodeTroopers

/-- A `double`: its IEEE 754 binary64 bit pattern. -/
structure Double where
  bits : UInt64
deriving DecidableEq, Inhabited

/-- The number a `double` stands for. -/
def Double.toFloat (d : Double) : Float := Float.ofBits d.bits

/-- `model::Trooper`, in the order of its constructor. -/
structure Trooper where
  id : Int64
  x : Int32
  y : Int32
  playerId : Int64
  teammateIndex : Int32
  teammate : Bool
  type : TrooperType
  stance : TrooperStance
  hitpoints : Int32
  maximalHitpoints : Int32
  actionPoints : Int32
  initialActionPoints : Int32
  visionRange : Double
  shootingRange : Double
  shootCost : Int32
  standingDamage : Int32
  kneelingDamage : Int32
  proneDamage : Int32
  damage : Int32
  holdingGrenade : Bool
  holdingMedikit : Bool
  holdingFieldRation : Bool
deriving DecidableEq, Inhabited

/-- `model::Bonus`. -/
structure Bonus where
  id : Int64
  x : Int32
  y : Int32
  type : BonusType
deriving DecidableEq, Inhabited

/-- `model::Player`; the name is a byte string. -/
structure Player where
  id : Int64
  name : List UInt8
  score : Int32
  strategyCrashed : Bool
  approximateX : Int32
  approximateY : Int32
deriving DecidableEq, Inhabited

/-- `vector< vector< CellType > >`: column `x` of the board is the `x`-th entry. -/
abbrev Cells := List (List CellType)

/-- `model::World`. -/
structure World where
  moveIndex : Int32
  width : Int32
  height : Int32
  players : List Player
  troopers : List Trooper
  bonuses : List Bonus
  cells : Cells
  cellVisibilities : List Bool
deriving DecidableEq, Inhabited

/-- `model::PlayerContext`. -/
structure PlayerContext where
  trooper : Trooper
  world : World
deriving DecidableEq, Inhabited

/-- `model::Game`, in the order of its constructor. -/
structure Game where
  moveCount : Int32
  lastPlayerEliminationScore : Int32
  playerEliminationScore : Int32
  trooperEliminationScore : Int32
  trooperDamageScoreFactor : Double
  stanceChangeCost : Int32
  standingMoveCost : Int32
  kneelingMoveCost : Int32
  proneMoveCost : Int32
  commanderAuraBonusActionPoints : Int32
  commanderAuraRange : Double
  commanderRequestEnemyDispositionCost : Int32
  commanderRequestEnemyDispositionMaxOffset : Int32
  fieldMedicHealCost : Int32
  fieldMedicHealBonusHitpoints : Int32
  fieldMedicHealSelfBonusHitpoints : Int32
  sniperStandingStealthBonus : Double
  sniperKneelingStealthBonus : Double
  sniperProneStealthBonus : Double
  sniperStandingShootingRangeBonus : Double
  sniperKneelingShootingRangeBonus : Double
  sniperProneShootingRangeBonus : Double
  scoutStealthBonusNegation : Double
  grenadeThrowCost : Int32
  grenadeThrowRange : Double
  grenadeDirectDamage : Int32
  grenadeCollateralDamage : Int32
  medikitUseCost : Int32
  medikitBonusHitpoints : Int32
  medikitHealSelfBonusHitpoints : Int32
  fieldRationEatCost : Int32
  fieldRationBonusActionPoints : Int32
deriving DecidableEq, Inhabited

/-- `model::Move`; the defaults are those of its constructor. -/
structure Move where
  action : ActionType := .endTurn
  direction : Direction := .unknownDirection
  x : Int32 := -1
  y : Int32 := -1
deriving DecidableEq, Inhabited

end CodeTroopers
