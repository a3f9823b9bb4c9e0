import CodeTroopers.Client.RemoteProcessClient
import CodeTroopers.Library.CheckedVector
import CodeTroopers.Strategy.MyStrategy

set_option autoImplicit false

/-! # The runner

`Runner::run` as a program over the connection. The strategies are a family of arbitrary functions,
one for each index; what they leave behind in the process (the globals of `MyStrategy.cpp`, say) is
threaded through the calls. `MyStrategy.family` is the family of the source.

Each message read or written is noted as an `Event` once it is complete. The `while` loop takes the
number of rounds it may run as fuel; the length of the inbound stream is more than enough. -/

namespace CodeTroopers

open StreamProgram ByteOrder CheckedVector

/-- A `Strategy`: the move it fills in and the process it leaves, if it returns. -/
abbrev Strategy (σ : Type) := Trooper → World → Game → σ → Option (Move × σ)

/-- A complete message of a session. -/
inductive Event where
  | tokenWritten
  | teamSizeRead (teamSize : Int32)
  | versionWritten
  | gameRead (game : Game)
  | contextRead (playerContext : PlayerContext)
  | moveWritten (move : Move)
  /-- `readPlayerContext` has returned the null pointer. -/
  | nullRead
deriving DecidableEq

/-- Noting a complete message. -/
def noteEvent (event : Event) : Client Event Unit := .note event (.pure ())

namespace Runner

variable {σ : Type}

/-- The vector of strategies. -/
def strategies (family : ℕ → Strategy σ) (teamSize : Int32) : List (Strategy σ) :=
  (List.range teamSize.toInt.toNat).map family

/-- The `while` loop. -/
def playLoop (host : Order) (strategies : List (Strategy σ)) (game : Game) :
    ℕ → RemoteProcessClient → σ → Client Event Unit
  | 0, _, _ => .exit .outOfFuel
  | fuel + 1, client, s => do
    let (playerContext, client) ← RemoteProcessClient.readPlayerContext host client
    match playerContext with
    | none => noteEvent .nullRead
    | some playerContext => do
      noteEvent (.contextRead playerContext)
      let playerTrooper := playerContext.trooper
      match at? strategies playerTrooper.teammateIndex.toInt with
      | none => .exit .undefined
      | some strategy =>
        match strategy playerTrooper playerContext.world game s with
        | none => .exit .noAnswer
        | some (move, s) => do
          RemoteProcessClient.writeMove host move
          noteEvent (.moveWritten move)
          playLoop host strategies game fuel client s

/-- `Runner::run`. -/
def run (host : Order) (token : List UInt8) (family : ℕ → Strategy σ) (s : σ) (fuel : ℕ) :
    Client Event Unit := do
  RemoteProcessClient.writeToken host token
  noteEvent .tokenWritten
  let teamSize ← RemoteProcessClient.readTeamSize host
  noteEvent (.teamSizeRead teamSize)
  RemoteProcessClient.writeProtocolVersion host
  noteEvent .versionWritten
  let game ← RemoteProcessClient.readGameContext host
  noteEvent (.gameRead game)
  playLoop host (strategies family teamSize) game fuel .initial s

/-- The acting trooper has a strategy. -/
def HasStrategy (teamSize : Int32) (trooper : Trooper) : Prop :=
  0 ≤ trooper.teammateIndex ∧ trooper.teammateIndex < teamSize

theorem at?_strategies_eq_some_iff (family : ℕ → Strategy σ) (teamSize : Int32)
    (trooper : Trooper) (strategy : Strategy σ) :
    at? (strategies family teamSize) trooper.teammateIndex.toInt = some strategy
      ↔ HasStrategy teamSize trooper ∧ family trooper.teammateIndex.toInt.toNat = strategy := by
  rw [HasStrategy, Int32.le_iff_toInt_le, Int32.lt_iff_toInt_lt, Int32.toInt_zero,
    at?_eq_some_iff, strategies, List.getElem?_map, Option.map_eq_some_iff]
  constructor
  · intro h
    obtain ⟨h0, index, hindex, hstrategy⟩ := h
    obtain ⟨hlt, rfl⟩ := List.getElem?_eq_some_iff.mp hindex
    rw [List.length_range] at hlt
    rw [List.getElem_range] at hstrategy
    exact ⟨⟨h0, by omega⟩, hstrategy⟩
  · intro h
    obtain ⟨⟨h0, hlt⟩, hstrategy⟩ := h
    exact ⟨h0, _, List.getElem?_range (by omega), hstrategy⟩

end Runner

/-- The strategies of the source: every index has the same, over the globals of the process. -/
def MyStrategy.family (rand : ℕ → ℕ) (fuel : ℕ) : ℕ → Strategy Globals :=
  fun _ self world game => MyStrategy.move rand fuel ⟨self, world, game⟩

end CodeTroopers
