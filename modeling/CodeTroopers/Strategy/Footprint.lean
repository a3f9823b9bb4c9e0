import CodeTroopers.Strategy.Process
import CodeTroopers.Strategy.Reordering

set_option autoImplicit false

/-! # What a process reads

`Turn.read` keeps of the arguments of a move what the strategy reads, and blanks the rest: all the
players and ids, the ranges of vision, what the listed troopers hold, deal and have left to act
with, the scores and most constants of the game. Blanking commutes with the constructor and changes
nothing in the search, so that whole processes agree on turns that read the same
(`moves_eq_of_read`). -/

namespace CodeTroopers

open CheckedVector

/-- What is read of the trooper that moves. -/
def Trooper.readSelf (t : Trooper) : Trooper :=
  { (default : Trooper) with
    x := t.x, y := t.y, type := t.type, stance := t.stance, hitpoints := t.hitpoints
    maximalHitpoints := t.maximalHitpoints, actionPoints := t.actionPoints
    shootingRange := t.shootingRange, shootCost := t.shootCost, standingDamage := t.standingDamage
    kneelingDamage := t.kneelingDamage, proneDamage := t.proneDamage
    holdingGrenade := t.holdingGrenade, holdingMedikit := t.holdingMedikit
    holdingFieldRation := t.holdingFieldRation }

/-- What is read of a trooper of the world. -/
def Trooper.readListed (t : Trooper) : Trooper :=
  { (default : Trooper) with
    x := t.x, y := t.y, teammate := t.teammate, type := t.type, stance := t.stance
    hitpoints := t.hitpoints, maximalHitpoints := t.maximalHitpoints
    shootingRange := t.shootingRange }

def Bonus.read (bonus : Bonus) : Bonus := { bonus with id := 0 }

def World.read (w : World) : World :=
  { w with
    moveIndex := 0, players := [], troopers := w.troopers.map Trooper.readListed
    bonuses := w.bonuses.map Bonus.read }

def Game.read (game : Game) : Game :=
  { (default : Game) with
    stanceChangeCost := game.stanceChangeCost, standingMoveCost := game.standingMoveCost
    kneelingMoveCost := game.kneelingMoveCost, proneMoveCost := game.proneMoveCost
    commanderAuraRange := game.commanderAuraRange, fieldMedicHealCost := game.fieldMedicHealCost
    fieldMedicHealBonusHitpoints := game.fieldMedicHealBonusHitpoints
    fieldMedicHealSelfBonusHitpoints := game.fieldMedicHealSelfBonusHitpoints
    grenadeThrowCost := game.grenadeThrowCost, grenadeThrowRange := game.grenadeThrowRange
    grenadeDirectDamage := game.grenadeDirectDamage
    grenadeCollateralDamage := game.grenadeCollateralDamage, medikitUseCost := game.medikitUseCost
    medikitBonusHitpoints := game.medikitBonusHitpoints
    medikitHealSelfBonusHitpoints := game.medikitHealSelfBonusHitpoints
    fieldRationEatCost := game.fieldRationEatCost
    fieldRationBonusActionPoints := game.fieldRationBonusActionPoints }

def Turn.read (turn : Turn) : Turn := ⟨turn.self.readSelf, turn.world.read, turn.game.read⟩

namespace SlavaStrategy

/-- The object built for what is read. -/
def read (o : SlavaStrategy) : SlavaStrategy where
  self := o.self.readSelf
  world := o.world.read
  game := o.game.read
  cells := o.cells
  teammates := o.teammates.map Trooper.readListed
  enemies := o.enemies.map Trooper.readListed
  stances := o.stances

/-! ## The search -/

section Search

variable (o : SlavaStrategy) (g : Globals) (state : State)

theorem pickUp_read (bonuses : List Bonus) :
    pickUp (bonuses.map Bonus.read) state = pickUp bonuses state := by
  rw [pickUp, pickUp, List.foldl_map]
  rfl

theorem matesDist_read : o.read.matesDist g state = o.matesDist g state := by
  unfold matesDist read
  rw [List.foldlM_map]
  rfl

theorem closeToCommander_read : o.read.closeToCommander state = o.closeToCommander state := by
  unfold closeToCommander read
  rw [List.any_map]
  rfl

theorem shootingEnemies_read : o.read.shootingEnemies state = o.shootingEnemies state := by
  unfold shootingEnemies read
  rw [List.foldlM_map]
  rfl

theorem scoreState_read : o.read.scoreState g state = o.scoreState g state := by
  have hlen : o.read.teammates.length = o.teammates.length := List.length_map _
  unfold scoreState
  rw [matesDist_read, shootingEnemies_read, closeToCommander_read, hlen]
  rfl

theorem afterGrenade_read (enemy : Trooper) :
    o.read.afterGrenade g state enemy.readListed = o.afterGrenade g state enemy := by
  unfold afterGrenade read
  dsimp only
  rw [List.foldl_map, List.foldl_map]
  rfl

variable (visit : Visit) (points : Int) (s : SearchVars)

theorem healBranch_read (action : ActionType) (bonus selfBonus : Int32) (after : Int → State) :
    o.read.healBranch g visit action bonus selfBonus after points state s
      = o.healBranch g visit action bonus selfBonus after points state s := by
  unfold healBranch read
  rw [List.foldlM_map]
  rfl

theorem medikitBranch_read :
    o.read.medikitBranch g visit points state s = o.medikitBranch g visit points state s := by
  unfold medikitBranch
  simp only [healBranch_read]
  rfl

theorem medicBranch_read :
    o.read.medicBranch g visit points state s = o.medicBranch g visit points state s := by
  unfold medicBranch
  simp only [healBranch_read]
  rfl

theorem grenadeBranch_read :
    o.read.grenadeBranch g visit points state s = o.grenadeBranch g visit points state s := by
  have hloop : ∀ points, o.read.enemies.foldlM (fun s enemy =>
        if o.read.inGrenadeRange state enemy then
          visit (makeActionAt .throwGrenade enemy.pos) points (o.read.afterGrenade g state enemy) s
        else some s) s
      = o.enemies.foldlM (fun s enemy =>
        if o.inGrenadeRange state enemy then
          visit (makeActionAt .throwGrenade enemy.pos) points (o.afterGrenade g state enemy) s
        else some s) s := by
    intro points
    show (o.enemies.map Trooper.readListed).foldlM _ s = _
    rw [List.foldlM_map]
    simp only [afterGrenade_read]
    rfl
  unfold grenadeBranch
  simp only [hloop]
  rfl

theorem shootBranch_read :
    o.read.shootBranch visit points state s = o.shootBranch visit points state s := by
  unfold shootBranch read
  dsimp only
  rw [List.foldlM_map]
  rfl

end Search

/-- **The search reads no more.** -/
theorem maximizeScore_read (o : SlavaStrategy) (g : Globals) (left : ℕ) (points : Int)
    (state : State) (s : SearchVars) :
    o.read.maximizeScore g left points state s = o.maximizeScore g left points state s := by
  have hbonuses : ∀ state, pickUp o.read.world.bonuses state = pickUp o.world.bonuses state :=
    fun state => pickUp_read state o.world.bonuses
  induction left generalizing points state s with
  | zero => rw [maximizeScore, maximizeScore, hbonuses, scoreState_read]
  | succ left ih =>
      rw [maximizeScore, maximizeScore, hbonuses]
      simp only [scoreState_read, medikitBranch_read, grenadeBranch_read, medicBranch_read,
        shootBranch_read, ih]
      rfl

/-! ## The move -/

theorem placeTrooper_read (o : SlavaStrategy) (t : Trooper) :
    placeTrooper o.read t.readListed = (placeTrooper o t).map read := by
  unfold placeTrooper
  have hcells : setCell o.read.cells t.readListed.pos .lowCover
      = setCell o.cells t.pos .lowCover := rfl
  have hteam : t.readListed.teammate = t.teammate := rfl
  rw [hcells, hteam]
  cases setCell o.cells t.pos .lowCover with
  | none => rfl
  | some cells =>
      simp only [Option.bind_eq_bind, Option.bind_some]
      split_ifs <;> simp [read]

theorem placeTroopers_read (troopers : List Trooper) (o : SlavaStrategy) :
    (troopers.map Trooper.readListed).foldlM placeTrooper o.read
      = (troopers.foldlM placeTrooper o).map read := by
  rw [List.foldlM_map]
  exact (map_foldlM read placeTrooper (fun o t => placeTrooper o t.readListed)
    (fun o t => (placeTrooper_read o t).symm) troopers o).symm

theorem construct_read (turn : Turn) (g : Globals) :
    construct turn.read.self turn.read.world turn.read.game g
      = (construct turn.self turn.world turn.game g).map fun r => (r.1.read, r.2) := by
  have hloop : ∀ (o : SlavaStrategy) (g : Globals),
      ((turn.world.troopers.map Trooper.readListed).foldlM placeTrooper o.read).bind
          (fun o => some (o, g))
        = ((turn.world.troopers.foldlM placeTrooper o).bind fun o => some (o, g)).map
          fun r => (r.1.read, r.2) := by
    intro o g
    rw [placeTroopers_read]
    cases turn.world.troopers.foldlM placeTrooper o <;> rfl
  unfold construct
  by_cases hfirst : g.moveIndex + 1 = 0
  · -- the distances depend on the map, of which everything is read
    simp only [hfirst, if_true, init]
    have hfloyd : floyd ⟨turn.read.world.width.toInt, turn.read.world.height.toInt⟩
          turn.read.world.cells g.floydDist
        = floyd ⟨turn.world.width.toInt, turn.world.height.toInt⟩ turn.world.cells
          g.floydDist := rfl
    rw [hfloyd]
    cases floyd ⟨turn.world.width.toInt, turn.world.height.toInt⟩ turn.world.cells g.floydDist with
    | none => rfl
    | some table =>
        exact hloop ⟨turn.self, turn.world, turn.game, turn.world.cells, [], [],
          [.prone, .kneeling, .standing]⟩ _
  · simp only [hfirst, if_false]
    exact hloop ⟨turn.self, turn.world, turn.game, turn.world.cells, [], [], []⟩ _

theorem run_read (o : SlavaStrategy) (rand : ℕ → ℕ) (fuel : ℕ) (g : Globals) :
    o.read.run rand fuel g = o.run rand fuel g := by
  have hpos : o.read.self.pos = o.self.pos := rfl
  have hsearch : ∀ g, o.read.search g = o.search g := fun g =>
    o.maximizeScore_read g 10 o.self.actionPoints.toInt o.initialState initialVars
  rw [run, run, targetLoop_congr hpos]
  simp only [hsearch]

end SlavaStrategy

theorem MyStrategy.move_read (rand : ℕ → ℕ) (fuel : ℕ) (turn : Turn) (g : Globals) :
    MyStrategy.move rand fuel turn.read g = MyStrategy.move rand fuel turn g := by
  rw [MyStrategy.move, MyStrategy.move, SlavaStrategy.construct_read]
  cases SlavaStrategy.construct turn.self turn.world turn.game g with
  | none => rfl
  | some r =>
      simp only [Option.map_some, Option.bind_eq_bind, Option.bind_some, SlavaStrategy.run_read]

theorem MyStrategy.moves_read (rand : ℕ → ℕ) (fuel : ℕ) (turns : List Turn) (g : Globals) :
    MyStrategy.moves rand fuel (turns.map Turn.read) g = MyStrategy.moves rand fuel turns g := by
  induction turns generalizing g with
  | nil => rfl
  | cons turn turns ih =>
      rw [List.map_cons, MyStrategy.moves, MyStrategy.moves, MyStrategy.move_read]
      simp only [ih]

/-- **What is not read does not matter.** Two sequences of turns that agree in what the strategy
    reads lead a process through the same actions and the same globals, or neither returns. -/
theorem moves_eq_of_read {turns turns' : List Turn}
    (h : turns.map Turn.read = turns'.map Turn.read) (rand : ℕ → ℕ) (fuel : ℕ) (g : Globals) :
    MyStrategy.moves rand fuel turns g = MyStrategy.moves rand fuel turns' g := by
  rw [← MyStrategy.moves_read, h, MyStrategy.moves_read]

/-- Another player's world of the same corridor. -/
def renamedTurn : Turn :=
  ⟨{ woundedTrooper with id := 7, visionRange := ⟨0x4024000000000000⟩ },
    { corridor [{ woundedTrooper with holdingGrenade := true, shootCost := 9 }, farEnemy] [] with
      moveIndex := 3, players := [default] },
    { medikitGame with moveCount := 50 }⟩

theorem moves_eq_of_read_renamed :
    MyStrategy.moves (fun _ => 7) 1 [renamedTurn, watchedTurn] Globals.initial
      = MyStrategy.moves (fun _ => 7) 1 [watchedTurn, renamedTurn] Globals.initial := by
  have hread : renamedTurn.read = watchedTurn.read := rfl
  have hmap :
      [renamedTurn, watchedTurn].map Turn.read = [watchedTurn, renamedTurn].map Turn.read := by
    rw [List.map_cons, List.map_cons, List.map_cons, List.map_cons, hread]
  exact moves_eq_of_read hmap (fun _ => 7) 1 Globals.initial

end CodeTroopers
