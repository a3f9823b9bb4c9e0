import CodeTroopers.Strategy.SlavaStrategy
import Mathlib.Data.List.Induction

set_option autoImplicit false

/-! # Moves and sessions

The constructor of `SlavaStrategy`, `run()` with its target loop, and `MyStrategy::move`. The
globals outlive the strategy object: `move` builds a fresh object for every call, and
`session` threads the globals of the process through the calls.

`rand k` is the `k`-th number `rand()` returns after `srand`. The source leaves open which of the
two draws in `Point(random(sizeX), random(sizeY))` comes first; the `x` is drawn first here, and
swapping the pairs of the sequence gives the other order. The target loop may go on for ever, so it
takes the number of rounds it may run as fuel. -/

namespace CodeTroopers

open CheckedVector

/-- The globals before the first move. -/
def Globals.initial : Globals where
  size := ⟨0, 0⟩
  target := ⟨0, 0⟩
  moveIndex := -1
  floydDist := []
  draws := 0

/-- `random(bound)`; a remainder by zero is undefined. -/
def random (rand : ℕ → ℕ) (bound : Int) (g : Globals) : Option (Int × Globals) :=
  if bound = 0 then none
  else some ((rand g.draws : Int).tmod bound, { g with draws := g.draws + 1 })

/-- `cells[p.x][p.y] = c`. -/
def setCell (cells : Cells) (p : Point) (c : CellType) : Option Cells := do
  let column ← at? cells p.x
  let column ← set? column p.y c
  set? cells p.x column

namespace SlavaStrategy

/-! ## The constructor -/

/-- `init()`: only `sizeX`, `sizeY`, the generator and the distance table are global, `stances` is
    a member of the object. -/
def init (o : SlavaStrategy) (g : Globals) : Option (SlavaStrategy × Globals) := do
  let size : BoardSize := ⟨o.world.width.toInt, o.world.height.toInt⟩
  let floydDist ← floyd size o.world.cells g.floydDist
  some ({ o with stances := o.stances ++ [.prone, .kneeling, .standing] },
    { g with draws := 0, size := size, floydDist := floydDist })

/-- The body of the constructor's loop over the troopers. -/
def placeTrooper (o : SlavaStrategy) (trooper : Trooper) : Option SlavaStrategy := do
  let cells ← setCell o.cells trooper.pos .lowCover
  if trooper.teammate then some { o with cells := cells, teammates := o.teammates ++ [trooper] }
  else some { o with cells := cells, enemies := o.enemies ++ [trooper] }

/-- `SlavaStrategy(self, world, game)`. -/
def construct (self : Trooper) (world : World) (game : Game) (g : Globals) :
    Option (SlavaStrategy × Globals) := do
  let o : SlavaStrategy :=
    { self := self, world := world, game := game, cells := [], teammates := [], enemies := [],
      stances := [] }
  let g := { g with moveIndex := g.moveIndex + 1 }
  let (o, g) ← if g.moveIndex = 0 then o.init g else some (o, g)
  let o ← world.troopers.foldlM placeTrooper { o with cells := world.cells }
  some (o, g)

/-! ## `run()` -/

/-- The condition of the target loop. -/
def badTarget (o : SlavaStrategy) (g : Globals) : Option Bool :=
  (minDistance g.floydDist o.self.pos g.target).map fun d => decide (d ≤ 5 ∨ d = inf)

/-- The target loop: whether it has been left after at most `fuel` rounds, and the globals then. -/
def targetLoop (rand : ℕ → ℕ) (o : SlavaStrategy) : ℕ → Globals → Option (Bool × Globals)
  | 0, g => (o.badTarget g).map fun bad => (!bad, g)
  | fuel + 1, g => do
    let bad ← o.badTarget g
    if bad then
      let (x, g) ← random rand g.size.sizeX g
      let (y, g) ← random rand g.size.sizeY g
      targetLoop rand o fuel { g with target := ⟨x, y⟩ }
    else some (true, g)

/-- `if (move_index % 128 == 0) { target = self; }`. -/
def resetTarget (o : SlavaStrategy) (g : Globals) : Globals :=
  if g.moveIndex % 128 = 0 then { g with target := o.self.pos } else g

/-- `run()`: what the search leaves in the shared variables. There is no result if an access is
    undefined, or if the target loop has not been left after `fuel` rounds. -/
def run (rand : ℕ → ℕ) (fuel : ℕ) (o : SlavaStrategy) (g : Globals) :
    Option (SearchVars × Globals) := do
  let (done, g) ← targetLoop rand o fuel (o.resetTarget g)
  if done then
    let s ← o.search g
    some (s, g)
  else none

end SlavaStrategy

/-! ## Sessions -/

/-- The arguments of one call of `MyStrategy::move`. -/
structure Turn where
  self : Trooper
  world : World
  game : Game
deriving DecidableEq

/-- `MyStrategy::move`: the action and the globals after it. -/
def MyStrategy.move (rand : ℕ → ℕ) (fuel : ℕ) (turn : Turn) (g : Globals) :
    Option (Action × Globals) := do
  let (o, g) ← SlavaStrategy.construct turn.self turn.world turn.game g
  let (s, g) ← o.run rand fuel g
  some (s.best, g)

/-- The globals after a sequence of moves of one process. -/
def session (rand : ℕ → ℕ) (fuel : ℕ) (turns : List Turn) : Option Globals :=
  turns.foldlM (fun g turn => (MyStrategy.move rand fuel turn g).map Prod.snd) Globals.initial

/-! ## What the constructor builds -/

theorem cellAt_of_setCell {cells cells' : Cells} {p : Point} {c : CellType}
    (h : setCell cells p c = some cells') (q : Point) :
    cellAt cells' q = if q = p then some c else cellAt cells q := by
  simp only [setCell, Option.bind_eq_bind, Option.bind_eq_some_iff] at h
  obtain ⟨column, hcol, column', hcol', hcells⟩ := h
  obtain ⟨px, py⟩ := p
  obtain ⟨qx, qy⟩ := q
  simp only [cellAt, Option.bind_eq_bind, at?_of_set?_eq_some hcells, Point.mk.injEq]
  by_cases hx : qx = px
  · subst hx
    simp only [if_true, Option.bind_some, at?_of_set?_eq_some hcol', true_and]
    by_cases hy : qy = py
    · simp [hy]
    · simp [hy, hcol]
  · simp [hx]

theorem isSome_setCell_iff (cells : Cells) (p : Point) (c : CellType) :
    (setCell cells p c).isSome ↔ (cellAt cells p).isSome := by
  cases hcol : at? cells p.x with
  | none => simp [setCell, cellAt, hcol]
  | some column =>
      have hset : ∀ column', (set? cells p.x column').isSome := fun column' =>
        (set?_isSome_iff cells p.x column').mpr (by rw [hcol]; rfl)
      have hy := set?_isSome_iff column p.y c
      cases hcol' : set? column p.y c with
      | none =>
          rw [hcol'] at hy
          simpa [setCell, cellAt, hcol, hcol'] using hy
      | some column' =>
          rw [hcol'] at hy
          simpa [setCell, cellAt, hcol, hcol', hset column'] using hy

namespace SlavaStrategy

theorem isSome_placeTrooper_iff (o : SlavaStrategy) (t : Trooper) :
    (placeTrooper o t).isSome ↔ (cellAt o.cells t.pos).isSome := by
  rw [← isSome_setCell_iff o.cells t.pos .lowCover]
  cases hset : setCell o.cells t.pos .lowCover with
  | none => simp [placeTrooper, hset]
  | some cells =>
      simp only [placeTrooper, hset, Option.bind_eq_bind, Option.bind_some, Option.isSome_some,
        iff_true]
      split_ifs <;> rfl

/-- What the constructor's loop has done after the troopers of a list. -/
structure Placed (troopers : List Trooper) (o o' : SlavaStrategy) : Prop where
  self_eq : o'.self = o.self
  world_eq : o'.world = o.world
  game_eq : o'.game = o.game
  stances_eq : o'.stances = o.stances
  teammates_eq : o'.teammates = o.teammates ++ troopers.filter fun t => t.teammate
  enemies_eq : o'.enemies = o.enemies ++ troopers.filter fun t => !t.teammate
  cellAt_of_trooper : ∀ p, (∃ t ∈ troopers, t.pos = p) → cellAt o'.cells p = some .lowCover
  cellAt_of_empty : ∀ p, (∀ t ∈ troopers, t.pos ≠ p) → cellAt o'.cells p = cellAt o.cells p

theorem placed_placeTrooper {o o' : SlavaStrategy} {t : Trooper}
    (h : placeTrooper o t = some o') : Placed [t] o o' := by
  simp only [placeTrooper, Option.bind_eq_bind, Option.bind_eq_some_iff] at h
  obtain ⟨cells, hset, h⟩ := h
  have hcell := cellAt_of_setCell hset
  by_cases hmate : t.teammate
  · rw [if_pos hmate] at h
    cases h
    constructor <;> simp [hmate, hcell]
    intro p hp hpt
    exact absurd hpt.symm hp
  · rw [if_neg hmate] at h
    cases h
    constructor <;> simp [hmate, hcell]
    intro p hp hpt
    exact absurd hpt.symm hp

theorem placed_foldlM {troopers : List Trooper} {o o' : SlavaStrategy}
    (h : troopers.foldlM placeTrooper o = some o') : Placed troopers o o' := by
  induction troopers generalizing o with
  | nil =>
      cases h
      constructor <;> simp
  | cons t troopers ih =>
      rw [List.foldlM_cons, Option.bind_eq_bind, Option.bind_eq_some_iff] at h
      obtain ⟨o₁, hfirst, hrest⟩ := h
      have h₁ := placed_placeTrooper hfirst
      have h₂ := ih hrest
      -- a cell holds what the last trooper on it left, or what was there before
      refine ⟨h₂.self_eq.trans h₁.self_eq, h₂.world_eq.trans h₁.world_eq,
        h₂.game_eq.trans h₁.game_eq, h₂.stances_eq.trans h₁.stances_eq, ?_, ?_, ?_, ?_⟩
      · rw [h₂.teammates_eq, h₁.teammates_eq, List.append_assoc, ← List.filter_append]
        rfl
      · rw [h₂.enemies_eq, h₁.enemies_eq, List.append_assoc, ← List.filter_append]
        rfl
      · intro p hp
        by_cases hrest : ∃ u ∈ troopers, u.pos = p
        · exact h₂.cellAt_of_trooper p hrest
        · rw [h₂.cellAt_of_empty p fun u hu hup => hrest ⟨u, hu, hup⟩]
          obtain ⟨u, hu, hup⟩ := hp
          rcases List.mem_cons.mp hu with rfl | hu
          · exact h₁.cellAt_of_trooper p ⟨u, List.mem_singleton_self u, hup⟩
          · exact absurd ⟨u, hu, hup⟩ hrest
      · intro p hp
        rw [h₂.cellAt_of_empty p fun u hu => hp u (List.mem_cons_of_mem t hu),
          h₁.cellAt_of_empty p fun u hu => hp u (by rw [List.mem_singleton.mp hu]; simp)]

/-- The loop is defined where the cells of the troopers can be read: placing a trooper keeps the
    cells that can. -/
theorem isSome_foldlM_placeTrooper_iff (troopers : List Trooper) (o : SlavaStrategy) :
    (troopers.foldlM placeTrooper o).isSome
      ↔ ∀ t ∈ troopers, (cellAt o.cells t.pos).isSome := by
  induction troopers generalizing o with
  | nil => simp
  | cons t troopers ih =>
      rw [List.foldlM_cons, List.forall_mem_cons, ← isSome_placeTrooper_iff o t]
      cases hplace : placeTrooper o t with
      | none => simp
      | some o₁ =>
          have hp := placed_placeTrooper hplace
          have hcell : ∀ p, (cellAt o₁.cells p).isSome ↔ (cellAt o.cells p).isSome := by
            intro p
            by_cases ht : t.pos = p
            · rw [hp.cellAt_of_trooper p ⟨t, List.mem_singleton_self t, ht⟩]
              have hread := (isSome_placeTrooper_iff o t).mp (by rw [hplace]; rfl)
              simp [← ht, hread]
            · rw [hp.cellAt_of_empty p fun u hu => by rw [List.mem_singleton.mp hu]; exact ht]
          simp [ih, hcell]

theorem isSome_construct_iff (self : Trooper) (world : World) (game : Game) (g : Globals) :
    (construct self world game g).isSome
      ↔ (g.moveIndex + 1 = 0 → (floyd ⟨world.width.toInt, world.height.toInt⟩ world.cells
          g.floydDist).isSome) ∧ ∀ t ∈ world.troopers, (cellAt world.cells t.pos).isSome := by
  have hloop : ∀ o : SlavaStrategy, o.cells = world.cells → ∀ g' : Globals,
      ((world.troopers.foldlM placeTrooper o).bind fun o => some (o, g')).isSome
        ↔ ∀ t ∈ world.troopers, (cellAt world.cells t.pos).isSome := by
    intro o hcells g'
    rw [← hcells, ← isSome_foldlM_placeTrooper_iff]
    cases world.troopers.foldlM placeTrooper o <;> simp
  unfold construct
  by_cases hfirst : g.moveIndex + 1 = 0
  · cases hfloyd : floyd ⟨world.width.toInt, world.height.toInt⟩ world.cells g.floydDist with
    | none => simp [hfirst, init, hfloyd]
    | some table =>
        simp only [hfirst, if_true, init, hfloyd, Option.bind_eq_bind, Option.bind_some,
          Option.isSome_some, implies_true, true_and]
        exact hloop _ rfl _
  · simp only [hfirst, if_false, Option.bind_eq_bind, Option.bind_some, false_implies, true_and]
    exact hloop _ rfl _

/-- What the constructor has built, and what it did to the globals. -/
structure Constructed (turn : Turn) (g : Globals) (o : SlavaStrategy) (g' : Globals) : Prop where
  self_eq : o.self = turn.self
  world_eq : o.world = turn.world
  game_eq : o.game = turn.game
  teammates_eq : o.teammates = turn.world.troopers.filter fun t => t.teammate
  enemies_eq : o.enemies = turn.world.troopers.filter fun t => !t.teammate
  stances_eq : o.stances = if g'.moveIndex = 0 then [.prone, .kneeling, .standing] else []
  moveIndex_eq : g'.moveIndex = g.moveIndex + 1
  size_eq : g'.size = if g'.moveIndex = 0 then
    ⟨turn.world.width.toInt, turn.world.height.toInt⟩ else g.size
  cellAt_of_trooper : ∀ p, (∃ t ∈ turn.world.troopers, t.pos = p) →
    cellAt o.cells p = some .lowCover
  cellAt_of_empty : ∀ p, (∀ t ∈ turn.world.troopers, t.pos ≠ p) →
    cellAt o.cells p = cellAt turn.world.cells p

theorem constructed_construct {turn : Turn} {g g' : Globals} {o : SlavaStrategy}
    (h : construct turn.self turn.world turn.game g = some (o, g')) :
    Constructed turn g o g' := by
  unfold construct at h
  -- `init()` runs on the first move only
  by_cases hfirst : g.moveIndex + 1 = 0
  · simp only [hfirst, if_true, init, Option.bind_eq_bind, Option.bind_eq_some_iff] at h
    obtain ⟨⟨o₁, g₁⟩, ⟨table, _, hinit⟩, o₂, hplace, hres⟩ := h
    cases hinit
    cases hres
    have hp := placed_foldlM hplace
    exact ⟨hp.self_eq, hp.world_eq, hp.game_eq, by simpa using hp.teammates_eq,
      by simpa using hp.enemies_eq, by simpa using hp.stances_eq, hfirst.symm, rfl,
      hp.cellAt_of_trooper, hp.cellAt_of_empty⟩
  · simp only [hfirst, if_false, Option.bind_eq_bind, Option.bind_some,
      Option.bind_eq_some_iff] at h
    obtain ⟨o₂, hplace, hres⟩ := h
    cases hres
    have hp := placed_foldlM hplace
    exact ⟨hp.self_eq, hp.world_eq, hp.game_eq, by simpa using hp.teammates_eq,
      by simpa using hp.enemies_eq, by simpa [hfirst] using hp.stances_eq, rfl, by simp [hfirst],
      hp.cellAt_of_trooper, hp.cellAt_of_empty⟩

theorem construct_globals {self self' : Trooper} {world world' : World} {game game' : Game}
    {g g₁ g₁' : Globals} {o o' : SlavaStrategy} (h : construct self world game g = some (o, g₁))
    (h' : construct self' world' game' g = some (o', g₁')) (hwidth : world'.width = world.width)
    (hheight : world'.height = world.height) (hcells : world'.cells = world.cells) : g₁' = g₁ := by
  unfold construct at h h'
  by_cases hfirst : g.moveIndex + 1 = 0
  · simp only [hfirst, if_true, init, hwidth, hheight, hcells, Option.bind_eq_bind,
      Option.bind_eq_some_iff] at h h'
    obtain ⟨⟨_, _⟩, ⟨table, hfloyd, hinit⟩, _, _, hres⟩ := h
    obtain ⟨⟨_, _⟩, ⟨table', hfloyd', hinit'⟩, _, _, hres'⟩ := h'
    obtain rfl : table' = table := Option.some.inj (hfloyd'.symm.trans hfloyd)
    cases hinit
    cases hinit'
    cases hres
    cases hres'
    rfl
  · simp only [hfirst, if_false, Option.bind_eq_bind, Option.bind_some,
      Option.bind_eq_some_iff] at h h'
    obtain ⟨_, _, hres⟩ := h
    obtain ⟨_, _, hres'⟩ := h'
    cases hres
    cases hres'
    rfl

/-! ## What a run keeps -/

theorem random_frame {rand : ℕ → ℕ} {bound x : Int} {g g' : Globals}
    (h : random rand bound g = some (x, g')) : g' = { g with draws := g.draws + 1 } := by
  unfold random at h
  split_ifs at h
  cases h
  rfl

/-- The target loop changes the target and the generator only. -/
theorem targetLoop_frame (rand : ℕ → ℕ) (o : SlavaStrategy) {fuel : ℕ} {g g' : Globals}
    {done : Bool} (h : targetLoop rand o fuel g = some (done, g')) :
    g'.size = g.size ∧ g'.moveIndex = g.moveIndex ∧ g'.floydDist = g.floydDist := by
  induction fuel generalizing g with
  | zero =>
      simp only [targetLoop, Option.map_eq_some_iff] at h
      obtain ⟨bad, _, hres⟩ := h
      cases hres
      exact ⟨rfl, rfl, rfl⟩
  | succ fuel ih =>
      simp only [targetLoop, Option.bind_eq_bind, Option.bind_eq_some_iff] at h
      obtain ⟨bad, _, h⟩ := h
      cases bad with
      | false =>
          cases h
          exact ⟨rfl, rfl, rfl⟩
      | true =>
          simp only [if_true, Option.bind_eq_some_iff] at h
          obtain ⟨⟨x, g₁⟩, hx, ⟨y, g₂⟩, hy, h⟩ := h
          obtain rfl := random_frame hx
          obtain rfl := random_frame hy
          simpa using ih h

/-- A run that returns has left its target loop, and then searched. -/
theorem run_eq_some_iff (rand : ℕ → ℕ) (fuel : ℕ) (o : SlavaStrategy) (g g' : Globals)
    (s : SearchVars) :
    o.run rand fuel g = some (s, g')
      ↔ targetLoop rand o fuel (o.resetTarget g) = some (true, g') ∧ o.search g' = some s := by
  simp only [run, Option.bind_eq_bind, Option.bind_eq_some_iff]
  constructor
  · intro h
    obtain ⟨⟨done, g₁⟩, hloop, h⟩ := h
    cases done with
    | false => simp at h
    | true =>
        simp only [if_true, Option.bind_eq_some_iff] at h
        obtain ⟨s', hs, hres⟩ := h
        cases hres
        exact ⟨hloop, hs⟩
  · intro h
    obtain ⟨hloop, hs⟩ := h
    exact ⟨_, hloop, by simp [hs]⟩

theorem run_frame {rand : ℕ → ℕ} {fuel : ℕ} {o : SlavaStrategy} {g g' : Globals} {s : SearchVars}
    (h : o.run rand fuel g = some (s, g')) :
    g'.size = g.size ∧ g'.moveIndex = g.moveIndex ∧ g'.floydDist = g.floydDist := by
  have hframe := targetLoop_frame rand o ((run_eq_some_iff rand fuel o g g' s).mp h).1
  unfold resetTarget at hframe
  split_ifs at hframe <;> exact hframe

end SlavaStrategy

/-! ## What a session keeps -/

theorem MyStrategy.move_eq_some_iff (rand : ℕ → ℕ) (fuel : ℕ) (turn : Turn) (g g' : Globals)
    (action : Action) :
    MyStrategy.move rand fuel turn g = some (action, g')
      ↔ ∃ o g₁ s, SlavaStrategy.construct turn.self turn.world turn.game g = some (o, g₁) ∧
          o.run rand fuel g₁ = some (s, g') ∧ s.best = action := by
  simp only [MyStrategy.move, Option.bind_eq_bind, Option.bind_eq_some_iff]
  constructor
  · intro h
    obtain ⟨⟨o, g₁⟩, hcon, ⟨s, g₂⟩, hrun, hres⟩ := h
    cases hres
    exact ⟨o, g₁, s, hcon, hrun, rfl⟩
  · intro h
    obtain ⟨o, g₁, s, hcon, hrun, rfl⟩ := h
    exact ⟨_, hcon, _, hrun, rfl⟩

/-- After `n` moves `move_index` is `n - 1`, and the board has the size of the first world. -/
theorem session_globals {rand : ℕ → ℕ} {fuel : ℕ} {turns : List Turn} {g : Globals}
    (h : session rand fuel turns = some g) :
    g.moveIndex = turns.length - 1 ∧
      ∀ first ∈ turns.head?, g.size = ⟨first.world.width.toInt, first.world.height.toInt⟩ := by
  -- the last move is the one the globals come from
  induction turns using List.reverseRecOn generalizing g with
  | nil =>
      cases h
      simp [Globals.initial]
  | append_singleton turns turn ih =>
      simp only [session, List.foldlM_append, List.foldlM_cons, List.foldlM_nil,
        Option.bind_eq_bind, Option.bind_eq_some_iff, Option.map_eq_some_iff] at h
      obtain ⟨g₀, hbefore, g₂, ⟨⟨action, g₁⟩, hmove, rfl⟩, hres⟩ := h
      cases hres
      obtain ⟨o, g₂, s, hcon, hrun, _⟩ := (MyStrategy.move_eq_some_iff ..).mp hmove
      obtain ⟨hindex, hsize⟩ := ih hbefore
      have hc := SlavaStrategy.constructed_construct hcon
      obtain ⟨hrsize, hrindex, _⟩ := SlavaStrategy.run_frame hrun
      have hindex' : g₂.moveIndex = turns.length := by
        rw [hc.moveIndex_eq, hindex]
        omega
      refine ⟨by rw [hrindex, hindex']; simp, fun first hfirst => ?_⟩
      rw [hrsize, hc.size_eq, hindex']
      cases turns with
      | nil =>
          simp only [List.nil_append, List.head?_cons, Option.mem_def, Option.some.injEq] at hfirst
          simp [hfirst]
      | cons t turns =>
          have hne : ((t :: turns).length : Int) ≠ 0 := by simp; omega
          rw [if_neg hne]
          exact hsize first (by simpa using hfirst)

/-! ## A corridor -/

/-- Eight free cells in a row, all in sight of each other. -/
def corridor (troopers : List Trooper) (bonuses : List Bonus) : World :=
  { (default : World) with
    width := 8, height := 1, troopers := troopers, bonuses := bonuses
    cells := List.replicate 8 [.free], cellVisibilities := List.replicate 192 true }

/-- A wounded trooper at the end of the corridor, with the points for one action. -/
def woundedTrooper : Trooper :=
  { (default : Trooper) with
    teammate := true, stance := .standing, hitpoints := 50, maximalHitpoints := 100
    actionPoints := 2, shootCost := 3 }

/-- A game in which a medikit is the only thing the trooper can pay for. -/
def medikitGame : Game :=
  { (default : Game) with
    stanceChangeCost := 3, standingMoveCost := 3, grenadeThrowCost := 3, fieldRationEatCost := 3
    medikitUseCost := 2, medikitHealSelfBonusHitpoints := 30 }

/-- A first move in the corridor with every draw `7` aims at the far end. -/
def corridorGlobals : Globals where
  size := ⟨8, 1⟩
  target := ⟨7, 0⟩
  moveIndex := 0
  floydDist := (floyd ⟨8, 1⟩ (corridor [] []).cells []).getD []
  draws := 2

example : session (fun _ => 7) 1 [⟨woundedTrooper, corridor [woundedTrooper] [], medikitGame⟩]
    = some corridorGlobals := by decide +kernel

/-! ## A yard -/

/-- Two rows of four cells, joined at one end, with a wall between them. -/
def yardCells : Cells :=
  [[.free, .highCover, .free], [.free, .highCover, .free], [.free, .highCover, .free],
    [.free, .free, .free]]

/-- The yard with every cell in sight of every other one, and a medikit on one of them. -/
def yard (troopers : List Trooper) : World :=
  { (default : World) with
    width := 4, height := 3, troopers := troopers
    bonuses := [{ (default : Bonus) with id := 3, x := 2, type := .medikit }]
    cells := yardCells, cellVisibilities := List.replicate 432 true }

/-- A field medic with a medikit, who can shoot and has the points for one action. -/
def yardMedic : Trooper :=
  { (default : Trooper) with
    x := 1, teammate := true, type := .fieldMedic, stance := .standing, hitpoints := 80
    maximalHitpoints := 100, actionPoints := 2, shootCost := 2, standingDamage := 20
    shootingRange := ⟨0x4024000000000000⟩, holdingMedikit := true }

/-- The wounded commander next to the medic. -/
def yardCommander : Trooper :=
  { yardMedic with
    id := 1, x := 0, teammateIndex := 1, type := .commander, hitpoints := 40
    holdingMedikit := false }

/-- An enemy at the corner, who can shoot two cells far. -/
def yardEnemy : Trooper :=
  { (default : Trooper) with
    id := 2, x := 3, y := 2, stance := .standing, hitpoints := 100, maximalHitpoints := 100
    shootingRange := ⟨0x4004000000000000⟩ }

/-- A game in which only a medikit and a shot can be paid for. -/
def yardGame : Game :=
  { (default : Game) with
    stanceChangeCost := 3, standingMoveCost := 3, grenadeThrowCost := 3, fieldRationEatCost := 3
    medikitUseCost := 2, medikitBonusHitpoints := 50, medikitHealSelfBonusHitpoints := 30
    fieldMedicHealCost := 3, fieldMedicHealBonusHitpoints := 5 }

def yardTurn : Turn := ⟨yardMedic, yard [yardMedic, yardCommander, yardEnemy], yardGame⟩

/-- The commander's move after the medic's, who has used the medikit. -/
def commanderTurn : Turn :=
  let commander := { yardCommander with hitpoints := 90 }
  ⟨commander,
    yard [{ yardMedic with holdingMedikit := false, actionPoints := 0 }, commander, yardEnemy],
    yardGame⟩

/-- What `floyd()` computes there. -/
def yardDistances : DistanceTable := (floyd ⟨4, 3⟩ yardCells []).getD []

/-- The globals the first move in the yard leaves if every draw is `8`. -/
def yardGlobals : Globals where
  size := ⟨4, 3⟩
  target := ⟨0, 2⟩
  moveIndex := 0
  floydDist := yardDistances
  draws := 2

/-- The globals of the first move before its target loop. -/
def openingGlobals : Globals := { yardGlobals with target := Globals.initial.target, draws := 0 }

/-- The first move of a trooper in the upper row aims at the end of the lower one. -/
theorem targetLoop_yard {o : SlavaStrategy} (hpos : o.self.pos = ⟨1, 0⟩) :
    SlavaStrategy.targetLoop (fun _ => 8) o 1 (o.resetTarget openingGlobals)
      = some (true, yardGlobals) := by
  have hnear : minDistance yardDistances ⟨1, 0⟩ ⟨1, 0⟩ = some 2 := by decide +kernel
  have hfar : minDistance yardDistances ⟨1, 0⟩ ⟨0, 2⟩ = some 7 := by decide +kernel
  simp [SlavaStrategy.resetTarget, SlavaStrategy.targetLoop, SlavaStrategy.badTarget, random, hpos,
    hnear, hfar, openingGlobals, yardGlobals, inf]

/-- The object of the medic's move. -/
def yardStrategy : SlavaStrategy where
  self := yardTurn.self
  world := yardTurn.world
  game := yardTurn.game
  cells := [[.lowCover, .highCover, .free], [.lowCover, .highCover, .free],
    [.free, .highCover, .free], [.free, .free, .lowCover]]
  teammates := [yardMedic, yardCommander]
  enemies := [yardEnemy]
  stances := [.prone, .kneeling, .standing]

theorem construct_yard :
    SlavaStrategy.construct yardTurn.self yardTurn.world yardTurn.game Globals.initial
      = some (yardStrategy, openingGlobals) := by rfl

end CodeTroopers
