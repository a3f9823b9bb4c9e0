import CodeTroopers.Client.RemoteProcessClient
import CodeTroopers.Library.WireFormat
import Mathlib.Algebra.Group.Int.Defs

set_option autoImplicit false

/-! # The grammar of the inbound messages

The messages of a session as they stand on the wire, field by field, and what may not stand there.
A message is the list of its fields in the order of `RemoteProcessClient.cpp`, each written by its
own encoder. Two parts of it depend on more than the value: the cells and the visibility table are
written only for a client that does not have them yet, and the dimensions in front of the table are
not kept in it. -/

namespace CodeTroopers

open StreamProgram ByteOrder WireFormat

/-! ## Messages -/

/-- The four bytes of an `int`. -/
def intBytes (n : Int32) : List UInt8 := leBytes 4 n.toUInt32.toNat

def encodeInt (n : Int32) : List WireByte := (intBytes n).map .exact

def encodeLong (n : Int64) : List WireByte := (leBytes 8 n.toUInt64.toNat).map .exact

def encodeDouble (d : Double) : List WireByte := (leBytes 8 d.bits.toNat).map .exact

def encodeBoolean (v : Bool) : List WireByte := [.flag v]

def encodeCode (code : Int8) : List WireByte := [.exact code.toUInt8]

/-- An enumerator, as a signed byte. -/
def encodeEnum {α : Type} [WireEnum α] (a : α) : List WireByte := encodeCode (WireEnum.toCode a)

/-- A length or a number of entries. -/
def encodeCount (n : ℕ) : List WireByte := encodeInt (Int32.ofNat n)

/-- A list with its number of entries in front. -/
def encodeList {α : Type} (encode : α → List WireByte) (as : List α) : List WireByte :=
  encodeCount as.length ++ as.flatMap encode

def encodeString (s : List UInt8) : List WireByte := encodeList (fun b => [.exact b]) s

def encodePlayer (p : Player) : List WireByte :=
  [encodeBoolean true, encodeLong p.id, encodeString p.name, encodeInt p.score,
    encodeBoolean p.strategyCrashed, encodeInt p.approximateX, encodeInt p.approximateY].flatten

def encodeTrooper (t : Trooper) : List WireByte :=
  [encodeBoolean true, encodeLong t.id, encodeInt t.x, encodeInt t.y, encodeLong t.playerId,
    encodeInt t.teammateIndex, encodeBoolean t.teammate, encodeEnum t.type, encodeEnum t.stance,
    encodeInt t.hitpoints, encodeInt t.maximalHitpoints, encodeInt t.actionPoints,
    encodeInt t.initialActionPoints, encodeDouble t.visionRange, encodeDouble t.shootingRange,
    encodeInt t.shootCost, encodeInt t.standingDamage, encodeInt t.kneelingDamage,
    encodeInt t.proneDamage, encodeInt t.damage, encodeBoolean t.holdingGrenade,
    encodeBoolean t.holdingMedikit, encodeBoolean t.holdingFieldRation].flatten

def encodeBonus (b : Bonus) : List WireByte :=
  [encodeBoolean true, encodeLong b.id, encodeInt b.x, encodeInt b.y, encodeEnum b.type].flatten

def encodeColumn (column : List CellType) : List WireByte := encodeList encodeEnum column

/-- The three dimensions in front of the visibility table. -/
structure VisibilityHeader where
  worldWidth : Int32
  worldHeight : Int32
  stanceCount : Int32
deriving DecidableEq

/-- The number of entries the client computes from them. -/
def VisibilityHeader.count (h : VisibilityHeader) : Int32 :=
  h.worldWidth * h.worldHeight * h.worldWidth * h.worldHeight * h.stanceCount

/-- The product of the dimensions. -/
def VisibilityHeader.product (h : VisibilityHeader) : Int :=
  h.worldWidth.toInt * h.worldHeight.toInt * h.worldWidth.toInt * h.worldHeight.toInt *
    h.stanceCount.toInt

/-- No dimension is negative. -/
def VisibilityHeader.Nonneg (h : VisibilityHeader) : Prop :=
  0 ≤ h.worldWidth ∧ 0 ≤ h.worldHeight ∧ 0 ≤ h.stanceCount

theorem VisibilityHeader.Nonneg.product_nonneg {h : VisibilityHeader} (hnonneg : h.Nonneg) :
    0 ≤ h.product := by
  obtain ⟨hwidth, hheight, hcount⟩ := hnonneg
  rw [Int32.le_iff_toInt_le, Int32.toInt_zero] at hwidth hheight hcount
  exact Int.mul_nonneg (Int.mul_nonneg (Int.mul_nonneg (Int.mul_nonneg hwidth hheight) hwidth)
    hheight) hcount

theorem VisibilityHeader.count_eq_ofInt (h : VisibilityHeader) :
    h.count = Int32.ofInt h.product := by
  simp only [count, product, Int32.ofInt_mul, Int32.ofInt_toInt]

theorem VisibilityHeader.toInt_count {h : VisibilityHeader} (hnonneg : h.Nonneg)
    (hproduct : h.product < 2 ^ 31) : h.count.toInt = h.product := by
  have := hnonneg.product_nonneg
  rw [count_eq_ofInt, Int32.toInt_ofInt_of_le (by omega) (by omega)]

def encodeHeader (h : VisibilityHeader) : List WireByte :=
  [encodeInt h.worldWidth, encodeInt h.worldHeight, encodeInt h.stanceCount].flatten

/-- The cells, unless the client has them already. -/
def encodeCells (cached : Option Cells) (cells : Cells) : List WireByte :=
  if cached.isSome then [] else encodeList encodeColumn cells

/-- The visibility table, unless the client has it already. -/
def encodeVisibilities (cached : Option (List Bool)) (h : VisibilityHeader) (table : List Bool) :
    List WireByte :=
  if cached.isSome then [] else encodeHeader h ++ table.map .flag

/-- A world, with the dimensions in front of its visibility table. -/
def encodeWorld (client : RemoteProcessClient) (h : VisibilityHeader) (w : World) :
    List WireByte :=
  [encodeBoolean true, encodeInt w.moveIndex, encodeInt w.width, encodeInt w.height,
    encodeList encodePlayer w.players, encodeList encodeTrooper w.troopers,
    encodeList encodeBonus w.bonuses, encodeCells client.cells w.cells,
    encodeVisibilities client.cellVisibilities h w.cellVisibilities].flatten

def encodeTeamSize (teamSize : Int32) : List WireByte :=
  [encodeCode MessageType.teamSize.toCode, encodeInt teamSize].flatten

/-- The fields of a game, in the order of its constructor. -/
def gameFields (g : Game) : List (List WireByte) :=
  [encodeInt g.moveCount, encodeInt g.lastPlayerEliminationScore,
    encodeInt g.playerEliminationScore, encodeInt g.trooperEliminationScore,
    encodeDouble g.trooperDamageScoreFactor, encodeInt g.stanceChangeCost,
    encodeInt g.standingMoveCost, encodeInt g.kneelingMoveCost,
    encodeInt g.proneMoveCost, encodeInt g.commanderAuraBonusActionPoints,
    encodeDouble g.commanderAuraRange, encodeInt g.commanderRequestEnemyDispositionCost,
    encodeInt g.commanderRequestEnemyDispositionMaxOffset, encodeInt g.fieldMedicHealCost,
    encodeInt g.fieldMedicHealBonusHitpoints, encodeInt g.fieldMedicHealSelfBonusHitpoints,
    encodeDouble g.sniperStandingStealthBonus, encodeDouble g.sniperKneelingStealthBonus,
    encodeDouble g.sniperProneStealthBonus, encodeDouble g.sniperStandingShootingRangeBonus,
    encodeDouble g.sniperKneelingShootingRangeBonus, encodeDouble g.sniperProneShootingRangeBonus,
    encodeDouble g.scoutStealthBonusNegation, encodeInt g.grenadeThrowCost,
    encodeDouble g.grenadeThrowRange, encodeInt g.grenadeDirectDamage,
    encodeInt g.grenadeCollateralDamage, encodeInt g.medikitUseCost,
    encodeInt g.medikitBonusHitpoints, encodeInt g.medikitHealSelfBonusHitpoints,
    encodeInt g.fieldRationEatCost, encodeInt g.fieldRationBonusActionPoints]

def encodeGame (g : Game) : List WireByte :=
  (encodeCode MessageType.gameContext.toCode :: encodeBoolean true :: gameFields g).flatten

def encodePlayerContext (client : RemoteProcessClient) (h : VisibilityHeader)
    (ctx : PlayerContext) : List WireByte :=
  [encodeCode MessageType.playerContext.toCode, encodeBoolean true, encodeTrooper ctx.trooper,
    encodeWorld client h ctx.world].flatten

/-! ## What a message may hold -/

/-- The cells fit behind their counts, or are the ones the client has. -/
def ValidCells (cached : Option Cells) (cells : Cells) : Prop :=
  match cached with
  | some cells' => cells = cells'
  | none => cells.length < 2 ^ 31 ∧ ∀ column ∈ cells, column.length < 2 ^ 31

/-- The table has as many entries as the client computes from the dimensions, or is the one the
    client has. -/
def ValidVisibilities (cached : Option (List Bool)) (h : VisibilityHeader) (table : List Bool) :
    Prop :=
  match cached with
  | some table' => table = table'
  | none => h.Nonneg ∧ ¬ h.count < 0 ∧ table.length = h.count.toInt.toNat

/-- The lists every context carries fit behind their counts. -/
structure ValidLists (w : World) : Prop where
  players_length : w.players.length < 2 ^ 31
  name_length : ∀ p ∈ w.players, p.name.length < 2 ^ 31
  troopers_length : w.troopers.length < 2 ^ 31
  bonuses_length : w.bonuses.length < 2 ^ 31

/-- All lists of a world fit behind their counts. -/
structure ValidWorld (client : RemoteProcessClient) (h : VisibilityHeader) (w : World) : Prop
    extends ValidLists w where
  cells : ValidCells client.cells w.cells
  cellVisibilities : ValidVisibilities client.cellVisibilities h w.cellVisibilities

/-! ## What may not stand in a message -/

/-- A violation of the grammar: how the client ends, and the bytes it has just read. -/
inductive Violation : Ending → List UInt8 → Prop
  /-- A nested presence flag is zero. -/
  | absent {code : ℕ} (h : code ∈ [10002, 10004, 10006, 10010]) : Violation (.exit code) [0]
  /-- A count or dimension is negative. -/
  | negative {code : ℕ} (h : code ∈ [10003, 10005, 10007, 10008, 10009, 10018, 10019, 10020])
      (n : Int32) (hn : n < 0) : Violation (.exit code) (intBytes n)
  /-- A string length is `-1`. -/
  | nullString : Violation (.exit 10014) (intBytes (-1))
  /-- A string length is negative otherwise. -/
  | negativeString (n : Int32) (hn : n < 0) : Violation .abort (intBytes n)

/-- The dimensions just read are not negative, and their product is too large for an `int`. -/
def Oversized (token : List UInt8) : Prop :=
  ∃ h : VisibilityHeader, h.Nonneg ∧ 2 ^ 31 ≤ h.product ∧
    token = intBytes h.worldWidth ++ intBytes h.worldHeight ++ intBytes h.stanceCount

/-- What the client gives up on below a message. -/
def Fault (e : Ending) (token : List UInt8) : Prop :=
  Violation e token ∨ (e = .abort ∧ Oversized token)

/-- What the client gives up on when it expects a message: in addition, a wrong message type. -/
def MessageFault (expected : List Int8) (e : Ending) (token : List UInt8) : Prop :=
  Fault e token ∨ (e = .exit 10011 ∧ ∃ t ∉ expected, token = [t.toUInt8])

/-- What `readPlayerContext` may return, and the message it returns it for. -/
inductive ContextMessage (client : RemoteProcessClient) :
    Option PlayerContext × RemoteProcessClient → List WireByte → Prop
  | gameOver : ContextMessage client (none, client) (encodeCode MessageType.gameOver.toCode)
  | absent : ContextMessage client (none, client)
      (encodeCode MessageType.playerContext.toCode ++ encodeBoolean false)
  | present (ctx : PlayerContext) (h : VisibilityHeader) (hvalid : ValidWorld client h ctx.world) :
      ContextMessage client (some ctx, ⟨some ctx.world.cells, some ctx.world.cellVisibilities⟩)
        (encodePlayerContext client h ctx)

theorem encodePlayerContext_eq (client : RemoteProcessClient) (h : VisibilityHeader)
    (ctx : PlayerContext) :
    encodePlayerContext client h ctx = encodeCode MessageType.playerContext.toCode ++
      (encodeBoolean true ++ (encodeTrooper ctx.trooper ++ encodeWorld client h ctx.world)) := by
  simp only [encodePlayerContext, List.flatten_cons, List.flatten_nil, List.append_nil]

theorem contextMessage_gameOver_iff (client : RemoteProcessClient)
    (b : Option PlayerContext × RemoteProcessClient) (rest : List WireByte) :
    ContextMessage client b (encodeCode MessageType.gameOver.toCode ++ rest)
      ↔ b = (none, client) ∧ rest = [] := by
  constructor
  · intro h
    generalize hm : encodeCode MessageType.gameOver.toCode ++ rest = m at h
    -- the other messages begin with another byte
    cases h with
    | gameOver => exact ⟨rfl, List.append_right_eq_self.mp hm⟩
    | absent =>
        have htype : some (WireByte.exact 1) = some (.exact 6) := congrArg List.head? hm
        exact absurd htype (by decide)
    | present ctx h hvalid =>
        have htype : some (WireByte.exact 1) = some (.exact 6) := congrArg List.head? hm
        exact absurd htype (by decide)
  · intro h
    obtain ⟨rfl, rfl⟩ := h
    exact .gameOver

theorem contextMessage_playerContext_iff (client : RemoteProcessClient)
    (b : Option PlayerContext × RemoteProcessClient) (rest : List WireByte) :
    ContextMessage client b (encodeCode MessageType.playerContext.toCode ++ rest)
      ↔ (b = (none, client) ∧ rest = encodeBoolean false) ∨
        ∃ ctx h, ValidWorld client h ctx.world ∧
          b = (some ctx, ⟨some ctx.world.cells, some ctx.world.cellVisibilities⟩) ∧
          rest = encodeBoolean true ++ (encodeTrooper ctx.trooper ++ encodeWorld client h ctx.world)
    := by
  constructor
  · intro h
    generalize hm : encodeCode MessageType.playerContext.toCode ++ rest = m at h
    cases h with
    | gameOver =>
        have htype : some (WireByte.exact 6) = some (.exact 1) := congrArg List.head? hm
        exact absurd htype (by decide)
    | absent => exact Or.inl ⟨rfl, List.append_cancel_left hm⟩
    | present ctx h hvalid =>
        rw [encodePlayerContext_eq] at hm
        exact Or.inr ⟨ctx, h, hvalid, rfl, List.append_cancel_left hm⟩
  · intro h
    rcases h with ⟨rfl, rfl⟩ | ⟨ctx, h, hvalid, rfl, rfl⟩
    · exact .absent
    · rw [← encodePlayerContext_eq]
      exact .present ctx h hvalid

/-! ## A context on two cells -/

def twoCellSoldier : Trooper :=
  { (default : Trooper) with
    id := 1, teammate := true, type := .soldier, stance := .standing, hitpoints := 80,
    maximalHitpoints := 100, actionPoints := 10, holdingMedikit := true }

def twoCellEnemy : Trooper :=
  { (default : Trooper) with
    id := 2, x := 1, playerId := 7, type := .sniper, stance := .prone, hitpoints := 100 }

/-- The soldier's move: an enemy and a grenade lie on the cell next to it. -/
def twoCellContext : PlayerContext where
  trooper := twoCellSoldier
  world := {
    moveIndex := 3
    width := 2
    height := 1
    players := [{ (default : Player) with id := 7, name := [97, 98], score := -5 }]
    troopers := [twoCellSoldier, twoCellEnemy]
    bonuses := [⟨3, 1, 0, .grenade⟩]
    cells := [[.free], [.free]]
    cellVisibilities := [true, true, true, false, true, true, true, true, false, true, true, true] }

/-- The dimensions in front of its visibility table. -/
def twoCellHeader : VisibilityHeader := ⟨2, 1, 3⟩

theorem validWorld_twoCellContext : ValidWorld .initial twoCellHeader twoCellContext.world :=
  ⟨⟨by decide, by decide, by decide, by decide⟩, ⟨by decide, by decide⟩,
    ⟨by decide, by decide, by decide⟩, by decide, by decide⟩

end CodeTroopers
