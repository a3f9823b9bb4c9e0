import CodeTroopers.Client.RemoteProcessClient

set_option autoImplicit false

/-! # The readers only read

No reading function of the client writes or notes anything, and each gives up only by `exit` (or
where `readBytes` does). What such a function returns is decided by the bytes it consumes, on a
machine of either byte order. -/

namespace CodeTroopers

open StreamProgram ByteOrder

/-- The program only reads, and gives up only by `exit`. -/
abbrev ReadsOnly {ν α : Type} (p : Client ν α) : Prop := p.OnlyReads Ending.IsExit

variable {ν : Type} (host : Order)

theorem onlyReads_readBytes (n : UInt32) :
    ReadsOnly (RemoteProcessClient.readBytes n : Client ν _) := fun _ => trivial

theorem onlyReads_readEnum : ReadsOnly (RemoteProcessClient.readEnum : Client ν _) :=
  (onlyReads_readBytes 1).bind fun _ => trivial

theorem onlyReads_readAs (α : Type) [WireEnum α] :
    ReadsOnly (RemoteProcessClient.readAs α : Client ν _) :=
  onlyReads_readEnum.bind fun _ => trivial

theorem onlyReads_readBoolean : ReadsOnly (RemoteProcessClient.readBoolean : Client ν _) :=
  (onlyReads_readBytes 1).bind fun _ => trivial

theorem onlyReads_readInt : ReadsOnly (RemoteProcessClient.readInt host : Client ν _) :=
  (onlyReads_readBytes 4).bind fun _ => trivial

theorem onlyReads_readLong : ReadsOnly (RemoteProcessClient.readLong host : Client ν _) :=
  (onlyReads_readBytes 8).bind fun _ => trivial

theorem onlyReads_readDouble : ReadsOnly (RemoteProcessClient.readDouble host : Client ν _) :=
  (onlyReads_readLong host).bind fun _ => trivial

theorem onlyReads_readString : ReadsOnly (RemoteProcessClient.readString host : Client ν _) := by
  refine (onlyReads_readInt host).bind ?_
  intro length
  split
  · trivial
  · exact onlyReads_readBytes _

theorem onlyReads_counted {α : Type} {p : Client ν α} (hp : ReadsOnly p) (code : ℕ) :
    ReadsOnly ((RemoteProcessClient.readInt host).bind fun n =>
      if n < 0 then .exit (.exit code) else p.collect n.toInt.toNat) := by
  refine (onlyReads_readInt host).bind ?_
  intro n
  split
  · trivial
  · exact hp.collect _

theorem onlyReads_readPlayer : ReadsOnly (RemoteProcessClient.readPlayer host : Client ν _) := by
  refine onlyReads_readBoolean.bind ?_
  intro present
  cases present with
  | false => trivial
  | true =>
      exact (onlyReads_readLong host).bind fun _ => (onlyReads_readString host).bind fun _ =>
        (onlyReads_readInt host).bind fun _ => onlyReads_readBoolean.bind fun _ =>
        (onlyReads_readInt host).bind fun _ => (onlyReads_readInt host).bind fun _ => trivial

theorem onlyReads_readTrooper : ReadsOnly (RemoteProcessClient.readTrooper host : Client ν _) := by
  have hint := onlyReads_readInt (ν := ν) host
  have hlong := onlyReads_readLong (ν := ν) host
  have hdouble := onlyReads_readDouble (ν := ν) host
  have hbool := onlyReads_readBoolean (ν := ν)
  refine hbool.bind ?_
  intro present
  cases present with
  | false => trivial
  | true =>
      exact hlong.bind fun _ => hint.bind fun _ => hint.bind fun _ => hlong.bind fun _ =>
        hint.bind fun _ => hbool.bind fun _ => (onlyReads_readAs _).bind fun _ =>
        (onlyReads_readAs _).bind fun _ => hint.bind fun _ => hint.bind fun _ =>
        hint.bind fun _ => hint.bind fun _ => hdouble.bind fun _ => hdouble.bind fun _ =>
        hint.bind fun _ => hint.bind fun _ => hint.bind fun _ => hint.bind fun _ =>
        hint.bind fun _ => hbool.bind fun _ => hbool.bind fun _ => hbool.bind fun _ => trivial

theorem onlyReads_readBonus : ReadsOnly (RemoteProcessClient.readBonus host : Client ν _) := by
  refine onlyReads_readBoolean.bind ?_
  intro present
  cases present with
  | false => trivial
  | true =>
      exact (onlyReads_readLong host).bind fun _ => (onlyReads_readInt host).bind fun _ =>
        (onlyReads_readInt host).bind fun _ => (onlyReads_readAs _).bind fun _ => trivial

theorem onlyReads_readCells (cached : Option Cells) :
    ReadsOnly (RemoteProcessClient.readCells host cached : Client ν _) := by
  cases cached with
  | some cells => trivial
  | none => exact onlyReads_counted host (onlyReads_counted host (onlyReads_readAs _) _) _

theorem onlyReads_readCellVisibilities (cached : Option (List Bool)) :
    ReadsOnly (RemoteProcessClient.readCellVisibilities host cached : Client ν _) := by
  cases cached with
  | some table => trivial
  | none =>
      refine (onlyReads_readInt host).bind ?_
      intro worldWidth
      split
      · trivial
      refine (onlyReads_readInt host).bind ?_
      intro worldHeight
      split
      · trivial
      refine (onlyReads_readInt host).bind ?_
      intro stanceCount
      split
      · trivial
      exact (onlyReads_readBytes _).bind fun _ => trivial

theorem onlyReads_readWorld (client : RemoteProcessClient) :
    ReadsOnly (RemoteProcessClient.readWorld host client : Client ν _) := by
  refine onlyReads_readBoolean.bind ?_
  intro present
  cases present with
  | false => trivial
  | true =>
      exact (onlyReads_readInt host).bind fun _ => (onlyReads_readInt host).bind fun _ =>
        (onlyReads_readInt host).bind fun _ =>
        (onlyReads_counted host (onlyReads_readPlayer host) _).bind fun _ =>
        (onlyReads_counted host (onlyReads_readTrooper host) _).bind fun _ =>
        (onlyReads_counted host (onlyReads_readBonus host) _).bind fun _ =>
        (onlyReads_readCells host _).bind fun _ =>
        (onlyReads_readCellVisibilities host _).bind fun _ => trivial

theorem onlyReads_ensureMessageType (messageType : Int8) (expected : MessageType) :
    ReadsOnly (RemoteProcessClient.ensureMessageType messageType expected : Client ν _) := by
  unfold RemoteProcessClient.ensureMessageType
  split <;> trivial

theorem onlyReads_readPlayerContext (client : RemoteProcessClient) :
    ReadsOnly (RemoteProcessClient.readPlayerContext host client : Client ν _) := by
  refine onlyReads_readEnum.bind ?_
  intro messageType
  split
  · trivial
  refine (onlyReads_ensureMessageType _ _).bind fun _ =>
    onlyReads_readBoolean.bind fun present => ?_
  cases present with
  | false => trivial
  | true =>
      exact (onlyReads_readTrooper host).bind fun _ =>
        (onlyReads_readWorld host client).bind fun _ => trivial

theorem onlyReads_readTeamSize : ReadsOnly (RemoteProcessClient.readTeamSize host : Client ν _) :=
  onlyReads_readEnum.bind fun _ => (onlyReads_ensureMessageType _ _).bind fun _ =>
    onlyReads_readInt host

theorem onlyReads_readGameContext :
    ReadsOnly (RemoteProcessClient.readGameContext host : Client ν _) := by
  have hint := onlyReads_readInt (ν := ν) host
  have hdouble := onlyReads_readDouble (ν := ν) host
  refine onlyReads_readEnum.bind fun _ => (onlyReads_ensureMessageType _ _).bind fun _ =>
    onlyReads_readBoolean.bind fun present => ?_
  cases present with
  | false => trivial
  | true =>
      exact hint.bind fun _ => hint.bind fun _ => hint.bind fun _ => hint.bind fun _ =>
        hdouble.bind fun _ => hint.bind fun _ => hint.bind fun _ => hint.bind fun _ =>
        hint.bind fun _ => hint.bind fun _ => hdouble.bind fun _ => hint.bind fun _ =>
        hint.bind fun _ => hint.bind fun _ => hint.bind fun _ => hint.bind fun _ =>
        hdouble.bind fun _ => hdouble.bind fun _ => hdouble.bind fun _ => hdouble.bind fun _ =>
        hdouble.bind fun _ => hdouble.bind fun _ => hdouble.bind fun _ => hint.bind fun _ =>
        hdouble.bind fun _ => hint.bind fun _ => hint.bind fun _ => hint.bind fun _ =>
        hint.bind fun _ => hint.bind fun _ => hint.bind fun _ => hint.bind fun _ => trivial

end CodeTroopers
