import CodeTroopers.Client.Socket
import CodeTroopers.Library.ByteOrder
import CodeTroopers.Model.Entities

set_option autoImplicit false

/-! # The remote process client

The functions of `RemoteProcessClient.cpp` as programs over the connection. `host` is the byte order
of the machine, which `readInt` and its siblings undo. The two cached members `cells` and
`cellVisibilities` are passed in and out explicitly.

`int` arithmetic wraps (`Int32`). A request of bytes takes its number as `unsigned int`, so a
negative one is `2^31` or more, which `readBytes` cannot serve. Memory is taken to be unlimited:
`reserve` and the allocation of a buffer below `2^31` bytes do not fail. -/

namespace CodeTroopers

open StreamProgram ByteOrder

/-- A program of the client with observations `ν`. -/
abbrev Client (ν α : Type) := Prog Ending ν α

/-- The cached members of `RemoteProcessClient`; `none` is a null pointer. -/
structure RemoteProcessClient where
  cells : Option Cells
  cellVisibilities : Option (List Bool)
deriving DecidableEq

namespace RemoteProcessClient

variable {ν : Type}

/-- The members as constructed. -/
def initial : RemoteProcessClient := ⟨none, none⟩

/-! ## Bytes and words -/

/-- `readBytes`; its loop over the socket is `Socket.readBytes`. -/
def readBytes (byteCount : UInt32) : Client ν (List UInt8) := .read byteCount.toNat .pure

/-- `writeBytes`; its loop over the socket is `Socket.writeBytes`. -/
def writeBytes (bytes : List UInt8) : Client ν Unit := .write bytes (.pure ())

/-- `readEnum`. -/
def readEnum : Client ν Int8 := do
  let bytes ← readBytes 1
  pure (bytes.headD 0).toInt8

/-- `writeEnum`. -/
def writeEnum (value : Int8) : Client ν Unit := writeBytes [value.toUInt8]

/-- The cast of `readEnum()` to an enumeration. -/
def readAs (α : Type) [WireEnum α] : Client ν α := do
  let code ← readEnum
  pure (WireEnum.ofCode code)

/-- `readBoolean`. -/
def readBoolean : Client ν Bool := do
  let bytes ← readBytes 1
  pure (decide (bytes.headD 0 ≠ 0))

/-- `writeBoolean`. -/
def writeBoolean (value : Bool) : Client ν Unit := writeBytes [if value then 1 else 0]

/-- `LITTLE_ENDIAN_BYTE_ORDER`. -/
def littleEndianByteOrder : Bool := true

/-- `INTEGER_SIZE_BYTES`. -/
def integerSizeBytes : ℕ := 4

/-- `LONG_SIZE_BYTES`. -/
def longSizeBytes : ℕ := 8

/-- `isLittleEndianMachine`: the first byte in memory of the 16-bit number `0x0201`. -/
def isLittleEndianMachine (host : Order) : Bool := decide ((store host 2 0x0201).headD 0 = 1)

/-- `reverse(&bytes[0], &bytes[size - 1])`: the range is half open, the last byte stays. -/
def reverseBytes (size : ℕ) (bytes : List UInt8) : List UInt8 :=
  (bytes.take (size - 1)).reverse ++ bytes.drop (size - 1)

/-- The reversal `readInt` and its siblings do on a machine of the other byte order. -/
def fixOrder (host : Order) (size : ℕ) (bytes : List UInt8) : List UInt8 :=
  if isLittleEndianMachine host ≠ littleEndianByteOrder then reverseBytes size bytes else bytes

/-- `readInt`. -/
def readInt (host : Order) : Client ν Int32 := do
  let bytes ← readBytes (UInt32.ofNat integerSizeBytes)
  pure (UInt32.ofNat (load host (fixOrder host integerSizeBytes bytes))).toInt32

/-- `writeInt`. -/
def writeInt (host : Order) (value : Int32) : Client ν Unit :=
  writeBytes (fixOrder host integerSizeBytes (store host integerSizeBytes value.toUInt32.toNat))

/-- `readLong`. -/
def readLong (host : Order) : Client ν Int64 := do
  let bytes ← readBytes (UInt32.ofNat longSizeBytes)
  pure (UInt64.ofNat (load host (fixOrder host longSizeBytes bytes))).toInt64

/-- `writeLong`. -/
def writeLong (host : Order) (value : Int64) : Client ν Unit :=
  writeBytes (fixOrder host longSizeBytes (store host longSizeBytes value.toUInt64.toNat))

/-- `readDouble`: the `long long` of the same bits. -/
def readDouble (host : Order) : Client ν Double := do
  let value ← readLong host
  pure ⟨value.toUInt64⟩

/-- `writeDouble`. -/
def writeDouble (host : Order) (value : Double) : Client ν Unit :=
  writeLong host value.bits.toInt64

/-- `readString`. A negative length other than `-1` ends in `readBytes`. -/
def readString (host : Order) : Client ν (List UInt8) := do
  let length ← readInt host
  if length = -1 then .exit (.exit 10014)
  else readBytes length.toUInt32

/-- `writeString`. -/
def writeString (host : Order) (value : List UInt8) : Client ν Unit := do
  writeInt host (Int32.ofNat value.length)
  writeBytes value

/-- `ensureMessageType`; the actual type is the byte read. -/
def ensureMessageType (actualType : Int8) (expectedType : MessageType) : Client ν Unit :=
  if actualType ≠ expectedType.toCode then .exit (.exit 10011) else pure ()

/-! ## The messages that open a session -/

/-- `writeToken`. -/
def writeToken (host : Order) (token : List UInt8) : Client ν Unit := do
  writeEnum MessageType.authenticationToken.toCode
  writeString host token

/-- `readTeamSize`. -/
def readTeamSize (host : Order) : Client ν Int32 := do
  let messageType ← readEnum
  ensureMessageType messageType .teamSize
  readInt host

/-- `writeProtocolVersion`. -/
def writeProtocolVersion (host : Order) : Client ν Unit := do
  writeEnum MessageType.protocolVersion.toCode
  writeInt host 2

/-- `readGameContext`. -/
def readGameContext (host : Order) : Client ν Game := do
  let messageType ← readEnum
  ensureMessageType messageType .gameContext
  let present ← readBoolean
  if !present then .exit (.exit 10017) else
  let moveCount ← readInt host
  let lastPlayerEliminationScore ← readInt host
  let playerEliminationScore ← readInt host
  let trooperEliminationScore ← readInt host
  let trooperDamageScoreFactor ← readDouble host
  let stanceChangeCost ← readInt host
  let standingMoveCost ← readInt host
  let kneelingMoveCost ← readInt host
  let proneMoveCost ← readInt host
  let commanderAuraBonusActionPoints ← readInt host
  let commanderAuraRange ← readDouble host
  let commanderRequestEnemyDispositionCost ← readInt host
  let commanderRequestEnemyDispositionMaxOffset ← readInt host
  let fieldMedicHealCost ← readInt host
  let fieldMedicHealBonusHitpoints ← readInt host
  let fieldMedicHealSelfBonusHitpoints ← readInt host
  let sniperStandingStealthBonus ← readDouble host
  let sniperKneelingStealthBonus ← readDouble host
  let sniperProneStealthBonus ← readDouble host
  let sniperStandingShootingRangeBonus ← readDouble host
  let sniperKneelingShootingRangeBonus ← readDouble host
  let sniperProneShootingRangeBonus ← readDouble host
  let scoutStealthBonusNegation ← readDouble host
  let grenadeThrowCost ← readInt host
  let grenadeThrowRange ← readDouble host
  let grenadeDirectDamage ← readInt host
  let grenadeCollateralDamage ← readInt host
  let medikitUseCost ← readInt host
  let medikitBonusHitpoints ← readInt host
  let medikitHealSelfBonusHitpoints ← readInt host
  let fieldRationEatCost ← readInt host
  let fieldRationBonusActionPoints ← readInt host
  pure ⟨moveCount,
    lastPlayerEliminationScore, playerEliminationScore,
    trooperEliminationScore, trooperDamageScoreFactor,
    stanceChangeCost, standingMoveCost, kneelingMoveCost, proneMoveCost,
    commanderAuraBonusActionPoints, commanderAuraRange,
    commanderRequestEnemyDispositionCost, commanderRequestEnemyDispositionMaxOffset,
    fieldMedicHealCost, fieldMedicHealBonusHitpoints, fieldMedicHealSelfBonusHitpoints,
    sniperStandingStealthBonus, sniperKneelingStealthBonus, sniperProneStealthBonus,
    sniperStandingShootingRangeBonus, sniperKneelingShootingRangeBonus,
    sniperProneShootingRangeBonus, scoutStealthBonusNegation,
    grenadeThrowCost, grenadeThrowRange, grenadeDirectDamage, grenadeCollateralDamage,
    medikitUseCost, medikitBonusHitpoints, medikitHealSelfBonusHitpoints,
    fieldRationEatCost, fieldRationBonusActionPoints⟩

/-! ## A player context -/

/-- The body of the loop of `readPlayers`. -/
def readPlayer (host : Order) : Client ν Player := do
  let present ← readBoolean
  if present then
    let id ← readLong host
    let name ← readString host
    let score ← readInt host
    let strategyCrashed ← readBoolean
    let approximateX ← readInt host
    let approximateY ← readInt host
    pure ⟨id, name, score, strategyCrashed, approximateX, approximateY⟩
  else .exit (.exit 10004)

/-- `readPlayers`. -/
def readPlayers (host : Order) : Client ν (List Player) := do
  let playerCount ← readInt host
  if playerCount < 0 then .exit (.exit 10003)
  else (readPlayer host).collect playerCount.toInt.toNat

/-- `readTrooper`. -/
def readTrooper (host : Order) : Client ν Trooper := do
  let present ← readBoolean
  if !present then .exit (.exit 10006) else
  let id ← readLong host
  let x ← readInt host
  let y ← readInt host
  let playerId ← readLong host
  let teammateIndex ← readInt host
  let teammate ← readBoolean
  let type ← readAs TrooperType
  let stance ← readAs TrooperStance
  let hitpoints ← readInt host
  let maximalHitpoints ← readInt host
  let actionPoints ← readInt host
  let initialActionPoints ← readInt host
  let visionRange ← readDouble host
  let shootingRange ← readDouble host
  let shootCost ← readInt host
  let standingDamage ← readInt host
  let kneelingDamage ← readInt host
  let proneDamage ← readInt host
  let damage ← readInt host
  let holdingGrenade ← readBoolean
  let holdingMedikit ← readBoolean
  let holdingFieldRation ← readBoolean
  pure ⟨id, x, y, playerId,
    teammateIndex, teammate, type, stance,
    hitpoints, maximalHitpoints, actionPoints, initialActionPoints,
    visionRange, shootingRange, shootCost,
    standingDamage, kneelingDamage, proneDamage, damage,
    holdingGrenade, holdingMedikit, holdingFieldRation⟩

/-- `readTroopers`. -/
def readTroopers (host : Order) : Client ν (List Trooper) := do
  let trooperCount ← readInt host
  if trooperCount < 0 then .exit (.exit 10005)
  else (readTrooper host).collect trooperCount.toInt.toNat

/-- The body of the loop of `readBonuses`. -/
def readBonus (host : Order) : Client ν Bonus := do
  let present ← readBoolean
  if present then
    let id ← readLong host
    let x ← readInt host
    let y ← readInt host
    let type ← readAs BonusType
    pure ⟨id, x, y, type⟩
  else .exit (.exit 10010)

/-- `readBonuses`. -/
def readBonuses (host : Order) : Client ν (List Bonus) := do
  let bonusCount ← readInt host
  if bonusCount < 0 then .exit (.exit 10009)
  else (readBonus host).collect bonusCount.toInt.toNat

/-- The body of the loop of `readCells`. -/
def readColumn (host : Order) : Client ν (List CellType) := do
  let height ← readInt host
  if height < 0 then .exit (.exit 10008)
  else (readAs CellType).collect height.toInt.toNat

/-- `readCells`: the cached cells, or those on the wire. -/
def readCells (host : Order) : Option Cells → Client ν Cells
  | some cells => pure cells
  | none => do
    let width ← readInt host
    if width < 0 then .exit (.exit 10007)
    else (readColumn host).collect width.toInt.toNat

/-- `readCellVisibilities`: the cached table, or the one on the wire. -/
def readCellVisibilities (host : Order) : Option (List Bool) → Client ν (List Bool)
  | some cellVisibilities => pure cellVisibilities
  | none => do
    let worldWidth ← readInt host
    if worldWidth < 0 then .exit (.exit 10018) else
    let worldHeight ← readInt host
    if worldHeight < 0 then .exit (.exit 10019) else
    let stanceCount ← readInt host
    if stanceCount < 0 then .exit (.exit 10020) else
    let rawVisibilityCount := worldWidth * worldHeight * worldWidth * worldHeight * stanceCount
    let rawVisibilities ← readBytes rawVisibilityCount.toUInt32
    pure (rawVisibilities.map fun b => decide (b ≠ 0))

/-- `readWorld`, with the members it leaves. -/
def readWorld (host : Order) (client : RemoteProcessClient) :
    Client ν (World × RemoteProcessClient) := do
  let present ← readBoolean
  if !present then .exit (.exit 10002) else
  let moveIndex ← readInt host
  let width ← readInt host
  let height ← readInt host
  let players ← readPlayers host
  let troopers ← readTroopers host
  let bonuses ← readBonuses host
  let cells ← readCells host client.cells
  let cellVisibilities ← readCellVisibilities host client.cellVisibilities
  pure (⟨moveIndex, width, height, players, troopers, bonuses, cells, cellVisibilities⟩,
    ⟨some cells, some cellVisibilities⟩)

/-- `readPlayerContext`; `none` is the null pointer it returns. -/
def readPlayerContext (host : Order) (client : RemoteProcessClient) :
    Client ν (Option PlayerContext × RemoteProcessClient) := do
  let messageType ← readEnum
  if messageType = MessageType.gameOver.toCode then pure (none, client) else
  ensureMessageType messageType .playerContext
  let present ← readBoolean
  if !present then pure (none, client) else
  let trooper ← readTrooper host
  let (world, client) ← readWorld host client
  pure (some ⟨trooper, world⟩, client)

/-- `writeMove`. -/
def writeMove (host : Order) (move : Move) : Client ν Unit := do
  writeEnum MessageType.moveMessage.toCode
  writeBoolean true
  writeEnum move.action.toCode
  writeEnum move.direction.toCode
  writeInt host move.x
  writeInt host move.y

end RemoteProcessClient

end CodeTroopers
