import Mathlib.Tactic.SplitIfs

set_option autoImplicit false

/-! # The enumerations of the game

The C++ enumerations of `model/*.h`. The client casts a signed byte of the wire straight to the
enumeration (`(TrooperStance) readEnum()`), so a variable of such a type may hold a code that no
enumerator names; `unnamed` keeps exactly those codes, its argument carrying the proof that the
code is outside the named range. `WireEnum` is the cast in both directions with its laws: every
signed byte is one value of the enumeration, and every value is the cast of its own code.

`ActionType` and `Direction` are only ever written by the client and `MessageType` is only ever
compared with, so these three have their enumerators and no `unnamed` value. -/

namespace CodeTroopers

/-- The casts between an enumeration and the signed byte that stands for it on the wire. -/
class WireEnum (α : Type) where
  /-- The `int` value of the enumerator, as a signed byte. -/
  toCode : α → Int8
  /-- The cast of a signed byte to the enumeration. -/
  ofCode : Int8 → α
  ofCode_toCode : ∀ a : α, ofCode (toCode a) = a
  toCode_ofCode : ∀ c : Int8, toCode (ofCode c) = c

attribute [simp] WireEnum.ofCode_toCode WireEnum.toCode_ofCode

/-! ## Enumerations read from the wire -/

/-- `model::CellType`. -/
inductive CellType where
  | unknownCell
  | free
  | lowCover
  | mediumCover
  | highCover
  | unnamed (code : {c : Int8 // c < -1 ∨ 3 < c})
deriving DecidableEq, Inhabited

instance : WireEnum CellType where
  toCode
    | .unknownCell => -1
    | .free => 0
    | .lowCover => 1
    | .mediumCover => 2
    | .highCover => 3
    | .unnamed c => c
  ofCode c :=
    if h : c < -1 ∨ 3 < c then .unnamed ⟨c, h⟩
    else if c = 0 then .free
    else if c = 1 then .lowCover
    else if c = 2 then .mediumCover
    else if c = 3 then .highCover
    else .unknownCell
  ofCode_toCode a := by
    cases a with
    | unnamed c => exact dif_pos c.2
    | _ => decide
  toCode_ofCode c := by
    split_ifs with h h0 h1 h2 h3
    · rfl
    all_goals grind

/-- `model::TrooperStance`; `_TROOPER_STANCE_COUNT_` is one of its enumerators. -/
inductive TrooperStance where
  | unknownStance
  | prone
  | kneeling
  | standing
  | trooperStanceCount
  | unnamed (code : {c : Int8 // c < -1 ∨ 3 < c})
deriving DecidableEq, Inhabited

instance : WireEnum TrooperStance where
  toCode
    | .unknownStance => -1
    | .prone => 0
    | .kneeling => 1
    | .standing => 2
    | .trooperStanceCount => 3
    | .unnamed c => c
  ofCode c :=
    if h : c < -1 ∨ 3 < c then .unnamed ⟨c, h⟩
    else if c = 0 then .prone
    else if c = 1 then .kneeling
    else if c = 2 then .standing
    else if c = 3 then .trooperStanceCount
    else .unknownStance
  ofCode_toCode a := by
    cases a with
    | unnamed c => exact dif_pos c.2
    | _ => decide
  toCode_ofCode c := by
    split_ifs with h h0 h1 h2 h3
    · rfl
    all_goals grind

/-- The stance as the `int` the code takes minima of and indexes with. -/
def TrooperStance.toInt (s : TrooperStance) : Int := (WireEnum.toCode s).toInt

/-- `model::TrooperType`. -/
inductive TrooperType where
  | unknownTrooper
  | commander
  | fieldMedic
  | soldier
  | sniper
  | scout
  | unnamed (code : {c : Int8 // c < -1 ∨ 4 < c})
deriving DecidableEq, Inhabited

instance : WireEnum TrooperType where
  toCode
    | .unknownTrooper => -1
    | .commander => 0
    | .fieldMedic => 1
    | .soldier => 2
    | .sniper => 3
    | .scout => 4
    | .unnamed c => c
  ofCode c :=
    if h : c < -1 ∨ 4 < c then .unnamed ⟨c, h⟩
    else if c = 0 then .commander
    else if c = 1 then .fieldMedic
    else if c = 2 then .soldier
    else if c = 3 then .sniper
    else if c = 4 then .scout
    else .unknownTrooper
  ofCode_toCode a := by
    cases a with
    | unnamed c => exact dif_pos c.2
    | _ => decide
  toCode_ofCode c := by
    split_ifs with h h0 h1 h2 h3 h4
    · rfl
    all_goals grind

/-- `model::BonusType`. -/
inductive BonusType where
  | unknownBonus
  | grenade
  | medikit
  | fieldRation
  | unnamed (code : {c : Int8 // c < -1 ∨ 2 < c})
deriving DecidableEq, Inhabited

instance : WireEnum BonusType where
  toCode
    | .unknownBonus => -1
    | .grenade => 0
    | .medikit => 1
    | .fieldRation => 2
    | .unnamed c => c
  ofCode c :=
    if h : c < -1 ∨ 2 < c then .unnamed ⟨c, h⟩
    else if c = 0 then .grenade
    else if c = 1 then .medikit
    else if c = 2 then .fieldRation
    else .unknownBonus
  ofCode_toCode a := by
    cases a with
    | unnamed c => exact dif_pos c.2
    | _ => decide
  toCode_ofCode c := by
    split_ifs with h h0 h1 h2
    · rfl
    all_goals grind

/-! ## Enumerations of the client -/

/-- `model::ActionType`. -/
inductive ActionType where
  | unknownAction
  | endTurn
  | move
  | shoot
  | raiseStance
  | lowerStance
  | throwGrenade
  | useMedikit
  | eatFieldRation
  | heal
  | requestEnemyDisposition
deriving DecidableEq, Inhabited

/-- The signed byte `writeMove` puts on the wire for an action. -/
def ActionType.toCode : ActionType → Int8
  | .unknownAction => -1
  | .endTurn => 0
  | .move => 1
  | .shoot => 2
  | .raiseStance => 3
  | .lowerStance => 4
  | .throwGrenade => 5
  | .useMedikit => 6
  | .eatFieldRation => 7
  | .heal => 8
  | .requestEnemyDisposition => 9

/-- `model::Direction`. -/
inductive Direction where
  | unknownDirection
  | currentPoint
  | north
  | east
  | south
  | west
deriving DecidableEq, Inhabited

/-- The signed byte `writeMove` puts on the wire for a direction. -/
def Direction.toCode : Direction → Int8
  | .unknownDirection => -1
  | .currentPoint => 0
  | .north => 1
  | .east => 2
  | .south => 3
  | .west => 4

/-- `MessageType` of `RemoteProcessClient.h`. -/
inductive MessageType where
  | unknownMessage
  | gameOver
  | authenticationToken
  | teamSize
  | protocolVersion
  | gameContext
  | playerContext
  | moveMessage
deriving DecidableEq, Inhabited

/-- The byte that opens a message of this type. -/
def MessageType.toCode : MessageType → Int8
  | .unknownMessage => 0
  | .gameOver => 1
  | .authenticationToken => 2
  | .teamSize => 3
  | .protocolVersion => 4
  | .gameContext => 5
  | .playerContext => 6
  | .moveMessage => 7

end CodeTroopers
