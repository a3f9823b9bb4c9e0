import CodeTroopers.Client.Lockstep
import CodeTroopers.Client.Parser
import CodeTroopers.Library.Decoder

set_option autoImplicit false

/-! # What the server makes of the outbound stream

The reference decoder of the messages the client writes: a byte for the message type, a byte for a
presence flag, a signed byte for an enumeration, four bytes for an `int`, and the length in front of
a string. On a little-endian machine it takes the stream of a session apart again
(`decodesAll_writtenBytes`), so that different sessions never write the same bytes
(`outbound_decodable`). -/

namespace CodeTroopers

open StreamProgram ByteOrder ByteDecoder

/-! ## The reference decoder -/

/-- All enumerators of `ActionType`. -/
def ActionType.enumerators : List ActionType :=
  [.unknownAction, .endTurn, .move, .shoot, .raiseStance, .lowerStance, .throwGrenade, .useMedikit,
    .eatFieldRation, .heal, .requestEnemyDisposition]

/-- All enumerators of `Direction`. -/
def Direction.enumerators : List Direction :=
  [.unknownDirection, .currentPoint, .north, .east, .south, .west]

/-- A signed byte, as the enumerator with this code. -/
def decodeEnum {α : Type} (enumerators : List α) (toCode : α → Int8) : Decoder α := do
  let b ← byte
  lift (enumerators.find? fun a => toCode a = b.toInt8)

def decodeInt : Decoder Int32 := do
  let n ← word 4
  pure (UInt32.ofNat n).toInt32

/-- A string behind its length. -/
def decodeString : Decoder (List UInt8) := do
  let length ← decodeInt
  check (0 ≤ length)
  bytes length.toInt.toNat

/-- The byte that opens a message. -/
def decodeMessageType (expected : MessageType) : Decoder Unit := do
  let b ← byte
  check (b.toInt8 = expected.toCode)

def decodeToken : Decoder (List UInt8) := do
  decodeMessageType .authenticationToken
  decodeString

def decodeProtocolVersion : Decoder Int32 := do
  decodeMessageType .protocolVersion
  decodeInt

def decodeMove : Decoder Move := do
  decodeMessageType .moveMessage
  let present ← byte
  check (present ≠ 0)
  let action ← decodeEnum ActionType.enumerators ActionType.toCode
  let direction ← decodeEnum Direction.enumerators Direction.toCode
  let x ← decodeInt
  let y ← decodeInt
  pure ⟨action, direction, x, y⟩

/-- The stream of a session, with a bound on the number of its moves. -/
def decodeSession (bound : ℕ) : Decoder (List UInt8 × Int32 × List Move) := do
  let token ← decodeToken
  let version ← decodeProtocolVersion
  let moves ← many decodeMove bound
  pure (token, version, moves)

/-- The whole outbound stream: no byte is left over. -/
def decodeOutbound (outbound : List UInt8) : Option (List UInt8 × Int32 × List Move) :=
  match decodeSession outbound.length outbound with
  | some (session, []) => some session
  | _ => none

/-! ## It decodes what the client writes -/

theorem decodes_decodeEnum {α : Type} {enumerators : List α} {toCode : α → Int8} {a : α}
    (h : enumerators.find? (fun a' => toCode a' = toCode a) = some a) :
    Decodes (decodeEnum enumerators toCode) a [(toCode a).toUInt8] := by
  have hcode : enumerators.find? (fun a' => toCode a' = (toCode a).toUInt8.toInt8) = some a := by
    rw [Int8.toInt8_toUInt8]
    exact h
  exact (decodes_byte _).bind (decodes_lift hcode)

theorem find?_actionType (a : ActionType) :
    ActionType.enumerators.find? (fun a' => a'.toCode = a.toCode) = some a := by
  cases a <;> rfl

theorem find?_direction (d : Direction) :
    Direction.enumerators.find? (fun d' => d'.toCode = d.toCode) = some d := by
  cases d <;> rfl

theorem decodes_decodeInt (n : Int32) : Decodes decodeInt n (intFrame .little n) := by
  have hword := (decodes_word 4 n.toUInt32.toNat n.toUInt32.toNat_lt).bind_pure
    fun n => (UInt32.ofNat n).toInt32
  rw [UInt32.ofNat_toNat, Int32.toInt32_toUInt32] at hword
  rwa [intFrame, fixOrder_little]

theorem decodes_decodeMessageType (t : MessageType) :
    Decodes (decodeMessageType t) () [t.toCode.toUInt8] :=
  (decodes_byte _).bind (decodes_lift (if_pos (Int8.toInt8_toUInt8 _)))

theorem decodes_decodeString {s : List UInt8} (h : s.length < 2 ^ 31) :
    Decodes decodeString s (intFrame .little (Int32.ofNat s.length) ++ s) := by
  obtain ⟨hval, hnot⟩ := toInt_ofNat_of_lt h
  refine (decodes_decodeInt _).bind (.check_bind (Int32.not_lt.mp hnot) ?_)
  rw [hval, Int.toNat_natCast]
  exact decodes_bytes s

theorem decodes_decodeToken {token : List UInt8} (h : token.length < 2 ^ 31) :
    Decodes decodeToken token (tokenFrame .little token) :=
  (decodes_decodeMessageType .authenticationToken).bind (decodes_decodeString h)

theorem decodes_decodeProtocolVersion :
    Decodes decodeProtocolVersion 2 (versionFrame .little) :=
  (decodes_decodeMessageType .protocolVersion).bind (decodes_decodeInt 2)

theorem decodes_decodeMove (move : Move) : Decodes decodeMove move (moveFrame .little move) := by
  refine (decodes_decodeMessageType .moveMessage).bind ?_
  refine (decodes_byte 1).bind (.check_bind (by decide) ?_)
  refine (decodes_decodeEnum (find?_actionType move.action)).bind ?_
  refine (decodes_decodeEnum (find?_direction move.direction)).bind ?_
  refine (decodes_decodeInt move.x).bind ?_
  exact (decodes_decodeInt move.y).bind_pure fun y =>
    (⟨move.action, move.direction, move.x, y⟩ : Move)

theorem decodesAll_writtenBytes {token : List UInt8} (h : token.length < 2 ^ 31)
    (moves : List Move) :
    DecodesAll (decodeSession (writtenBytes .little token moves).length) (token, 2, moves)
      (writtenBytes .little token moves) := by
  have hne : ∀ move, moveFrame .little move ≠ [] := fun _ => List.cons_ne_nil _ _
  -- the bytes are a bound on the number of the moves
  have hbound : moves.length ≤ (writtenBytes .little token moves).length := by
    have hle := length_le_length_flatMap hne moves
    rw [writtenBytes, List.length_append]
    omega
  have hmoves := decodesAll_many decodes_decodeMove hne hbound
  generalize (writtenBytes .little token moves).length = bound at hmoves
  rw [writtenBytes, List.append_assoc]
  exact (decodes_decodeToken h).bindAll (decodes_decodeProtocolVersion.bindAll
    (hmoves.bind_pure fun moves => (token, 2, moves)))

theorem writtenBytes_inj {token token' : List UInt8} (h : token.length < 2 ^ 31)
    (h' : token'.length < 2 ^ 31) {moves moves' : List Move}
    (heq : writtenBytes .little token moves = writtenBytes .little token' moves') :
    token = token' ∧ moves = moves' := by
  have hdecode := decodesAll_writtenBytes h moves
  rw [heq] at hdecode
  have hsession := hdecode.unique (decodesAll_writtenBytes h' moves')
  simpa only [Prod.mk.injEq, true_and] using hsession

/-- All the client writes in a session: the token, the version and the moves. -/
def writeSession (host : Order) (token : List UInt8) (moves : List Move) : Client Event Unit := do
  RemoteProcessClient.writeToken host token
  RemoteProcessClient.writeProtocolVersion host
  moves.forM (RemoteProcessClient.writeMove host)

theorem writes_forM_writeMove (host : Order) (moves : List Move) :
    Writes (moves.forM (RemoteProcessClient.writeMove host) : Client Event Unit)
      (moves.flatMap (moveFrame host)) := by
  induction moves with
  | nil =>
      intro c
      simp [runStream]
  | cons move moves ih =>
      rw [List.flatMap_cons]
      exact (writes_writeMove host move).bind ih

theorem writes_writeSession (host : Order) (token : List UInt8) (moves : List Move) :
    Writes (writeSession host token moves) (writtenBytes host token moves) := by
  rw [writtenBytes, List.append_assoc]
  exact (writes_writeToken host token).bind ((writes_writeProtocolVersion host).bind
    (writes_forM_writeMove host moves))

/-- **The outbound stream is uniquely decodable**: what the client writes for a token and some moves
    decodes to them and the version, and it writes the same for nothing else. -/
theorem outbound_decodable {token : List UInt8} (h : token.length < 2 ^ 31) (moves : List Move) :
    ∃ bytes, Writes (writeSession .little token moves) bytes ∧
      decodeOutbound bytes = some (token, 2, moves) ∧
      ∀ token' moves', token'.length < 2 ^ 31 →
        Writes (writeSession .little token' moves') bytes → token' = token ∧ moves' = moves := by
  refine ⟨_, writes_writeSession .little token moves, ?_, fun token' moves' h' hwrites => ?_⟩
  · rw [decodeOutbound, decodesAll_writtenBytes h moves]
  · exact writtenBytes_inj h' h ((writes_writeSession .little token' moves').unique hwrites)

/-- A token that looks like the messages behind it, and moves with the codes and coordinates
    below zero. -/
theorem outbound_decodable_codes :
    ∃ bytes, Writes (writeSession .little [4, 2, 7, 1]
        [⟨.unknownAction, .unknownDirection, -1, -2⟩, ⟨.move, .north, 3, 4⟩]) bytes ∧
      decodeOutbound bytes = some ([4, 2, 7, 1], 2,
        [⟨.unknownAction, .unknownDirection, -1, -2⟩, ⟨.move, .north, 3, 4⟩]) ∧
      ∀ token' moves', token'.length < 2 ^ 31 →
        Writes (writeSession .little token' moves') bytes → token' = [4, 2, 7, 1] ∧
          moves' = [⟨.unknownAction, .unknownDirection, -1, -2⟩, ⟨.move, .north, 3, 4⟩] :=
  outbound_decodable (by decide) _

end CodeTroopers
