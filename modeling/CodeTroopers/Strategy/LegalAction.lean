import CodeTroopers.Strategy.BestPlan

set_option autoImplicit false

/-! # The returned action is legal and affordable

What an action may be is stated here from the arguments of the move alone: the world the server
sent, its cells before the constructor overwrote those of the troopers, the trooper's own position,
stance and action points. `move_legal` links the action of the winning plan, whatever its depth, to
its guard at the root: the label is that of a step the root allows (`best_cases`), and
`mem_steps_iff` says what such a step must satisfy. -/

namespace CodeTroopers

/-- The point an action names. -/
def Move.cell (action : Move) : Point := ⟨action.x.toInt, action.y.toInt⟩

/-- The board of the world. -/
def World.size (w : World) : BoardSize := ⟨w.width.toInt, w.height.toInt⟩

/-- A cell at Manhattan distance 1. -/
def Point.Adjacent (p q : Point) : Prop := |p.x - q.x| + |p.y - q.y| = 1

instance (p q : Point) : Decidable (p.Adjacent q) :=
  inferInstanceAs (Decidable (|p.x - q.x| + |p.y - q.y| = 1))

theorem Point.mem_neighs_of_adjacent {b : BoardSize} {q n : Point} (hn : n.isCorrect b = true)
    (hadjacent : q.Adjacent n) : n ∈ q.neighs b := by
  obtain ⟨qx, qy⟩ := q
  obtain ⟨nx, ny⟩ := n
  rw [Point.isCorrect_iff] at hn
  rw [Point.mem_neighs_iff]
  simp only [Point.Adjacent, Point.mk.injEq] at hn hadjacent ⊢
  rcases abs_cases (qx - nx) with ⟨h₁, _⟩ | ⟨h₁, _⟩ <;>
    rcases abs_cases (qy - ny) with ⟨h₂, _⟩ | ⟨h₂, _⟩ <;>
      rw [h₁, h₂] at hadjacent <;> omega

theorem Point.adjacent_of_mem_neighs {b : BoardSize} {q n : Point} (h : n ∈ q.neighs b) :
    q.Adjacent n := by
  rcases (Point.mem_neighs_iff b q n).mp h with ⟨rfl, _⟩ | ⟨rfl, _⟩ | ⟨rfl, _⟩ | ⟨rfl, _⟩ <;>
    simp [Point.Adjacent]

namespace Turn

variable (turn : Turn)

/-- The trooper can pay the cost. -/
def Affords (cost : Int32) : Prop := cost.toInt ≤ turn.self.actionPoints.toInt

/-- The trooper can pay for a move in its stance. -/
def AffordsMove : Prop :=
  (turn.self.stance = .standing → turn.Affords turn.game.standingMoveCost) ∧
    (turn.self.stance = .kneeling → turn.Affords turn.game.kneelingMoveCost) ∧
    (turn.self.stance = .prone → turn.Affords turn.game.proneMoveCost)

/-- A board cell next to the trooper that is free on the map and that no trooper stands on. -/
def CanEnter (cell : Point) : Prop :=
  cell.isCorrect turn.world.size = true ∧ turn.self.pos.Adjacent cell ∧
    cellAt turn.world.cells cell = some .free ∧ ∀ t ∈ turn.world.troopers, t.pos ≠ cell

/-- The cell of an enemy with the property. -/
def AtEnemy (cell : Point) (P : Trooper → Prop) : Prop :=
  ∃ enemy ∈ turn.world.troopers, enemy.teammate = false ∧ enemy.pos = cell ∧ P enemy

/-- The trooper's own cell, or that of a teammate next to it. -/
def AtPatient (cell : Point) : Prop :=
  cell = turn.self.pos ∨ ∃ mate ∈ turn.world.troopers, mate.teammate = true ∧ mate.pos = cell ∧
    turn.self.pos.Adjacent cell

/-- The actions `run()` may return. -/
def LegalAction (action : Action) : Prop :=
  match action.action with
  | .endTurn => True
  | .move => turn.CanEnter action.cell ∧ turn.AffordsMove
  | .shoot =>
    turn.AtEnemy action.cell (fun enemy => turn.world.isVisible turn.self.shootingRange
      turn.self.pos turn.self.stance enemy.pos enemy.stance = some true) ∧
    turn.Affords turn.self.shootCost
  | .raiseStance => turn.self.stance ≠ .standing ∧ turn.Affords turn.game.stanceChangeCost
  | .lowerStance => turn.self.stance ≠ .prone ∧ turn.Affords turn.game.stanceChangeCost
  | .throwGrenade =>
    turn.AtEnemy action.cell
      (fun enemy => turn.self.pos.distanceTo enemy.pos ≤ turn.game.grenadeThrowRange.toFloat) ∧
    turn.Affords turn.game.grenadeThrowCost
  | .useMedikit => turn.AtPatient action.cell ∧ turn.Affords turn.game.medikitUseCost
  | .heal => turn.self.type = .fieldMedic ∧ turn.AtPatient action.cell ∧
      turn.Affords turn.game.fieldMedicHealCost
  | .eatFieldRation => turn.Affords turn.game.fieldRationEatCost
  | .unknownAction => False
  | .requestEnemyDisposition => False

end Turn

/-! ## Labels and their cells -/

theorem cell_makeActionAt_pos (action : ActionType) (t : Trooper) :
    (makeActionAt action t.pos).cell = t.pos := by
  simp [makeActionAt, Move.cell, Trooper.pos]

theorem cell_makeActionAt_of_isCorrect (action : ActionType) {w : World} {p : Point}
    (hp : p.isCorrect w.size = true) : (makeActionAt action p).cell = p := by
  rw [Point.isCorrect_iff] at hp
  have hw := Int32.toInt_lt w.width
  have hh := Int32.toInt_lt w.height
  simp only [World.size] at hp
  have hx : (Int32.ofInt p.x).toInt = p.x := Int32.toInt_ofInt_of_le (by omega) (by omega)
  have hy : (Int32.ofInt p.y).toInt = p.y := Int32.toInt_ofInt_of_le (by omega) (by omega)
  simp [makeActionAt, Move.cell, hx, hy]

namespace SlavaStrategy

theorem root_state (o : SlavaStrategy) :
    o.root.points = o.self.actionPoints.toInt ∧ o.root.state.pos = o.self.pos ∧
      o.root.state.stance = o.self.stance := by
  simp [root, enter, pickUp_eq, initialState]

section Guards

variable {turn : Turn} {g₀ g : Globals} {o : SlavaStrategy} (hcon : Constructed turn g₀ o g)

include hcon

theorem Constructed.atEnemy {enemy : Trooper} (henemy : enemy ∈ o.enemies) {action : ActionType}
    {P : Trooper → Prop} (hP : P enemy) : turn.AtEnemy (makeActionAt action enemy.pos).cell P := by
  rw [hcon.enemies_eq, List.mem_filter] at henemy
  exact ⟨enemy, henemy.1, by simpa using henemy.2, (cell_makeActionAt_pos _ _).symm, hP⟩

theorem Constructed.atPatient {g' : Globals} {state : State} (hpos : state.pos = turn.self.pos)
    {bonus selfBonus : Int32} {patient : Trooper} {heal : Int} {action : ActionType}
    (h : o.HealEnabled g' state bonus selfBonus patient heal) :
    turn.AtPatient (makeActionAt action patient.pos).cell := by
  rw [cell_makeActionAt_pos]
  obtain ⟨_, ⟨hmem, hneigh, _⟩ | ⟨rfl, _⟩⟩ := h
  · rw [hcon.teammates_eq, List.mem_filter] at hmem
    rw [Point.hasNeigh_iff, hpos] at hneigh
    exact Or.inr ⟨patient, hmem.1, hmem.2, rfl, hneigh.2⟩
  · exact Or.inl (by rw [hcon.self_eq])

/-- A cell the copy of the map marks free is free on the map and empty. -/
theorem Constructed.free_of_cellAt {p : Point} (h : cellAt o.cells p = some .free) :
    cellAt turn.world.cells p = some .free ∧ ∀ t ∈ turn.world.troopers, t.pos ≠ p := by
  have hempty : ∀ t ∈ turn.world.troopers, t.pos ≠ p := by
    intro t ht htp
    rw [hcon.cellAt_of_trooper p ⟨t, ht, htp⟩] at h
    simp at h
  exact ⟨(hcon.cellAt_of_empty p hempty).symm.trans h, hempty⟩

theorem Constructed.affordsMove (h : o.moveCost turn.self.stance ≤ turn.self.actionPoints.toInt) :
    turn.AffordsMove := by
  unfold moveCost at h
  rw [hcon.game_eq] at h
  refine ⟨fun hst => ?_, fun hst => ?_, fun hst => ?_⟩ <;> simpa [hst, Turn.Affords] using h

/-- **A step the root allows is a legal action** of the move. -/
theorem Constructed.legal_of_step {g' : Globals} (hsize : g'.size = turn.world.size)
    (hboard : turn.self.pos.isCorrect turn.world.size = true) {step : Step}
    (hstep : step ∈ o.steps g' o.root) : turn.LegalAction step.label := by
  obtain ⟨hcost, henabled⟩ := (o.mem_steps_iff g' o.root step).mp hstep
  obtain ⟨hpoints, hpos, hstance⟩ := o.root_state
  rw [hpoints, hcon.self_eq] at hcost
  rw [hcon.self_eq] at hpos hstance
  cases step with
  | useMedikit patient heal =>
      exact ⟨hcon.atPatient hpos henabled.2, hcon.game_eq ▸ hcost⟩
  | throwGrenade enemy =>
      obtain ⟨_, hmem, hrange⟩ := henabled
      rw [inGrenadeRange, hpos, hcon.game_eq, decide_eq_true_eq] at hrange
      exact ⟨hcon.atEnemy hmem hrange, hcon.game_eq ▸ hcost⟩
  | heal patient heal =>
      obtain ⟨htype, hheal⟩ := henabled
      exact ⟨hcon.self_eq ▸ htype, hcon.atPatient hpos hheal, hcon.game_eq ▸ hcost⟩
  | shoot enemy damage =>
      obtain ⟨hmem, hsees, _⟩ := henabled
      rw [seesEnemy, hpos, hstance, hcon.self_eq, hcon.world_eq] at hsees
      exact ⟨hcon.atEnemy hmem hsees, hcon.self_eq ▸ hcost⟩
  | move n =>
      obtain ⟨hneigh, hfree⟩ := henabled
      rw [hpos, hsize, Point.mem_neighs_iff_hasNeigh _ _ _ hboard, Point.hasNeigh_iff] at hneigh
      obtain ⟨hn, hadjacent⟩ := hneigh
      refine ⟨?_, hcon.affordsMove (hstance ▸ hcost)⟩
      rw [Step.label, cell_makeActionAt_of_isCorrect _ hn]
      exact ⟨hn, hadjacent, hcon.free_of_cellAt hfree⟩
  | raiseStance => exact ⟨hstance ▸ henabled, hcon.game_eq ▸ hcost⟩
  | lowerStance => exact ⟨hstance ▸ henabled, hcon.game_eq ▸ hcost⟩
  | eatFieldRation =>
      have hafford : turn.Affords turn.game.fieldRationEatCost := hcon.game_eq ▸ hcost
      exact hafford

end Guards

end SlavaStrategy

/-- **The action of a move is legal and affordable**, at any point of a session whose worlds keep
    the size of the first one, for a trooper that stands on the board, in every run of the search in
    which no `int` overflows. -/
theorem move_legal {rand : ℕ → ℕ} {fuel : ℕ} {before : List Turn} {turn : Turn} {g g' : Globals}
    {action : Action} (hsession : session rand fuel before = some g)
    (hmove : MyStrategy.move rand fuel turn g = some (action, g'))
    (hsize : ∀ first ∈ before.head?, first.world.size = turn.world.size)
    (hboard : turn.self.pos.isCorrect turn.world.size = true) : turn.LegalAction action := by
  obtain ⟨o, g₁, s, hcon, hrun, rfl⟩ := (MyStrategy.move_eq_some_iff ..).mp hmove
  have hc := SlavaStrategy.constructed_construct hcon
  -- the globals keep the size of the first world
  have hsize' : g'.size = turn.world.size := by
    obtain ⟨hindex, hfirst⟩ := session_globals hsession
    rw [(SlavaStrategy.run_frame hrun).1, hc.size_eq, hc.moveIndex_eq, hindex]
    cases before with
    | nil => rfl
    | cons first rest =>
        have hne : ((first :: rest).length : Int) - 1 + 1 ≠ 0 := by simp; omega
        rw [if_neg hne, hfirst first rfl]
        exact hsize first rfl
  -- whatever plan wins, the action is the label of an edge out of the root
  rcases o.best_cases g' ((SlavaStrategy.run_eq_some_iff ..).mp hrun).2 with
    hend | ⟨step, hstep, hbest⟩
  · rw [Turn.LegalAction, hend]
    trivial
  · rw [hbest]
    exact hc.legal_of_step hsize' hboard hstep

/-- Behind the medic's move the commander shoots at the enemy. -/
theorem move_legal_yard :
    ∃ action g', MyStrategy.move (fun _ => 8) 1 commanderTurn yardGlobals = some (action, g') ∧
      action.action = .shoot ∧ commanderTurn.LegalAction action := by
  have hsession : session (fun _ => 8) 1 [yardTurn] = some yardGlobals := by decide +kernel
  have hmove : MyStrategy.move (fun _ => 8) 1 commanderTurn yardGlobals
      = some (makeActionAt .shoot ⟨3, 2⟩, { yardGlobals with moveIndex := 1 }) := by
    decide +kernel
  exact ⟨_, _, hmove, rfl, move_legal hsession hmove (by decide) (by decide)⟩

end CodeTroopers
