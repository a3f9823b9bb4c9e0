import CodeTroopers.Strategy.LegalAction
import CodeTroopers.Strategy.Safety
import Mathlib.Data.List.Forall2

set_option autoImplicit false

/-! # A process that plays on one map

The globals live longer than the object that `MyStrategy::move` builds for a call. `Globals.Keeps`
is what they keep between two moves on one map: the distances of the map, and a target on it. It
holds behind every move (`OnMap.kept`), which is why the later moves may do without `init()`.

A move returns if its target loop does. With draws that come to every cell of the board again and
again, a whole process does so if at every move there is a free cell more than five steps away
(`OnMap.exists_moves`), and only then (`OnMap.kept_moves`). -/

namespace CodeTroopers

open SlavaStrategy

/-- The actions of a sequence of moves, and the globals behind them. -/
def MyStrategy.moves (rand : ℕ → ℕ) (fuel : ℕ) :
    List Turn → Globals → Option (List Action × Globals)
  | [], g => some ([], g)
  | turn :: turns, g => do
    let (action, g) ← MyStrategy.move rand fuel turn g
    let (actions, g) ← moves rand fuel turns g
    some (action :: actions, g)

/-- The globals between two moves on one map. -/
structure Globals.Keeps (b : BoardSize) (cells : Cells) (g : Globals) : Prop where
  size : g.size = b
  table : floyd b cells [] = some g.floydDist
  target : g.target.isCorrect b = true
  moveIndex : 0 ≤ g.moveIndex

/-- The globals of a process that has played on no other map. -/
def Globals.OnMap (b : BoardSize) (cells : Cells) (g : Globals) : Prop :=
  g = Globals.initial ∨ g.Keeps b cells

/-- A move on the map. -/
structure Turn.PlaysOn (b : BoardSize) (map : Cells) (turn : Turn) : Prop
    extends turn.Consistent where
  size_eq : turn.world.size = b
  cells_eq : turn.world.cells = map

/-- The two draws of a round, from any point of the sequence on, come to every cell of the board. -/
def Fair (rand : ℕ → ℕ) (b : BoardSize) : Prop :=
  ∀ n, ∀ c : Point, c.isCorrect b = true → ∃ j,
    (rand (n + 2 * j) : Int).tmod b.sizeX = c.x ∧ (rand (n + 2 * j + 1) : Int).tmod b.sizeY = c.y

/-- The cell of the `j`-th round of draws, from the `n`-th draw on. -/
def drawnCell (rand : ℕ → ℕ) (b : BoardSize) (n j : ℕ) : Point :=
  ⟨(rand (n + 2 * j) : Int).tmod b.sizeX, (rand (n + 2 * j + 1) : Int).tmod b.sizeY⟩

/-! ## More rounds -/

namespace SlavaStrategy

theorem targetLoop_mono {rand : ℕ → ℕ} {o : SlavaStrategy} {fuel fuel' : ℕ} (hle : fuel ≤ fuel')
    {g g' : Globals} (h : targetLoop rand o fuel g = some (true, g')) :
    targetLoop rand o fuel' g = some (true, g') := by
  induction fuel generalizing fuel' g with
  | zero =>
      simp only [targetLoop, Option.map_eq_some_iff, Prod.mk.injEq, Bool.not_eq_true'] at h
      obtain ⟨_, htest, rfl, rfl⟩ := h
      cases fuel' <;> simp [targetLoop, htest]
  | succ fuel ih =>
      obtain ⟨fuel', rfl⟩ : ∃ m, fuel' = m + 1 := ⟨fuel' - 1, by omega⟩
      simp only [targetLoop, Option.bind_eq_bind, Option.bind_eq_some_iff] at h ⊢
      obtain ⟨bad, htest, h⟩ := h
      refine ⟨bad, htest, ?_⟩
      cases bad with
      | false => exact h
      | true =>
          simp only [if_true, Option.bind_eq_some_iff] at h ⊢
          obtain ⟨x, hx, y, hy, h⟩ := h
          exact ⟨x, hx, y, hy, ih (by omega) h⟩

end SlavaStrategy

theorem MyStrategy.move_mono {rand : ℕ → ℕ} {fuel fuel' : ℕ} (hle : fuel ≤ fuel') {turn : Turn}
    {g g' : Globals} {action : Action}
    (h : MyStrategy.move rand fuel turn g = some (action, g')) :
    MyStrategy.move rand fuel' turn g = some (action, g') := by
  rw [move_eq_some_iff] at h ⊢
  obtain ⟨o, g₁, s, hcon, hrun, hbest⟩ := h
  obtain ⟨hloop, hsearch⟩ := (run_eq_some_iff ..).mp hrun
  exact ⟨o, g₁, s, hcon, (run_eq_some_iff ..).mpr ⟨targetLoop_mono hle hloop, hsearch⟩, hbest⟩

theorem MyStrategy.moves_cons_eq_some_iff (rand : ℕ → ℕ) (fuel : ℕ) (turn : Turn)
    (turns : List Turn) (g g' : Globals) (actions : List Action) :
    MyStrategy.moves rand fuel (turn :: turns) g = some (actions, g') ↔
      ∃ action later g₁, MyStrategy.move rand fuel turn g = some (action, g₁) ∧
        MyStrategy.moves rand fuel turns g₁ = some (later, g') ∧ actions = action :: later := by
  simp only [MyStrategy.moves, Option.bind_eq_bind, Option.bind_eq_some_iff]
  constructor
  · intro h
    obtain ⟨⟨action, g₁⟩, hmove, ⟨later, g₂⟩, hlater, hres⟩ := h
    cases hres
    exact ⟨action, later, g₁, hmove, hlater, rfl⟩
  · intro h
    obtain ⟨action, later, g₁, hmove, hlater, rfl⟩ := h
    exact ⟨_, hmove, _, hlater, rfl⟩

theorem MyStrategy.moves_mono {rand : ℕ → ℕ} {fuel fuel' : ℕ} (hle : fuel ≤ fuel')
    {turns : List Turn} {g g' : Globals} {actions : List Action}
    (h : MyStrategy.moves rand fuel turns g = some (actions, g')) :
    MyStrategy.moves rand fuel' turns g = some (actions, g') := by
  induction turns generalizing g actions with
  | nil => exact h
  | cons turn turns ih =>
      rw [moves_cons_eq_some_iff] at h ⊢
      obtain ⟨action, later, g₁, hmove, hlater, hactions⟩ := h
      exact ⟨action, later, g₁, move_mono hle hmove, ih hlater, hactions⟩

/-! ## What the constructor leaves in the globals -/

namespace SlavaStrategy

theorem floydDist_of_construct {turn : Turn} {g g' : Globals} {o : SlavaStrategy}
    (h : construct turn.self turn.world turn.game g = some (o, g')) :
    g'.target = g.target ∧
      (g.moveIndex + 1 = 0 →
        floyd turn.world.size turn.world.cells g.floydDist = some g'.floydDist) ∧
      (g.moveIndex + 1 ≠ 0 → g'.floydDist = g.floydDist) := by
  unfold construct at h
  by_cases hfirst : g.moveIndex + 1 = 0
  · simp only [hfirst, if_true, init, Option.bind_eq_bind, Option.bind_eq_some_iff] at h
    obtain ⟨⟨o₁, g₁⟩, ⟨table, hfloyd, hinit⟩, o₂, _, hres⟩ := h
    cases hinit
    cases hres
    exact ⟨rfl, fun _ => hfloyd, fun hne => absurd hfirst hne⟩
  · simp only [hfirst, if_false, Option.bind_eq_bind, Option.bind_some,
      Option.bind_eq_some_iff] at h
    obtain ⟨o₂, _, hres⟩ := h
    cases hres
    exact ⟨rfl, fun h => absurd h hfirst, fun _ => rfl⟩

end SlavaStrategy

/-! ## One move -/

theorem MyStrategy.legal_of_size {rand : ℕ → ℕ} {fuel : ℕ} {turn : Turn} {g g' : Globals}
    {action : Action} (hmove : MyStrategy.move rand fuel turn g = some (action, g'))
    (hsize : g'.size = turn.world.size) (hboard : turn.self.pos.isCorrect turn.world.size = true) :
    turn.LegalAction action := by
  obtain ⟨o, g₁, s, hcon, hrun, rfl⟩ := (MyStrategy.move_eq_some_iff ..).mp hmove
  rcases o.best_cases g' ((run_eq_some_iff ..).mp hrun).2 with hend | ⟨step, hstep, hlabel⟩
  · rw [Turn.LegalAction, hend]
    trivial
  · rw [hlabel]
    exact (constructed_construct hcon).legal_of_step hsize hboard hstep

/-- What the target loop leaves for the search. -/
theorem Turn.PlaysOn.of_targetLoop {b : BoardSize} {cells : Cells} {turn : Turn}
    (hturn : turn.PlaysOn b cells) {o : SlavaStrategy} {g₁ g : Globals}
    (hboard : OnBoard b cells o g₁) {rand : ℕ → ℕ} {fuel : ℕ}
    (hloop : targetLoop rand o fuel (o.resetTarget g₁) = some (true, g)) :
    g.size = turn.world.size ∧ TableFits turn.world.size g.floydDist ∧
      g.target.isCorrect turn.world.size = true := by
  obtain ⟨hsize, htable, d, hd, _⟩ := exists_minDistance_of_targetLoop hloop
  obtain ⟨t, _, hfloyd, hrep, _⟩ := exists_floyd hturn.cells
  have hfits : TableFits turn.world.size g.floydDist := by
    rw [hturn.size_eq, hturn.cells_eq, hboard.table, Option.some.injEq] at hfloyd
    rw [htable, hfloyd]
    exact hrep.fits
  refine ⟨by rw [hsize, hboard.size, hturn.size_eq], hfits, ?_⟩
  -- the table has been read at the target
  rw [htable] at hfits
  exact (hfits.isCorrect_of_minDistance hd).2

theorem Turn.PlaysOn.exists_run {b : BoardSize} {cells : Cells} {turn : Turn}
    (hturn : turn.PlaysOn b cells) {o : SlavaStrategy} {g₀ g₁ g : Globals}
    (hc : Constructed turn g₀ o g₁) (hboard : OnBoard b cells o g₁) {rand : ℕ → ℕ} {fuel : ℕ}
    (hloop : targetLoop rand o fuel (o.resetTarget g₁) = some (true, g)) :
    ∃ s, o.run rand fuel g₁ = some (s, g) := by
  -- every access of the search is defined
  obtain ⟨hsize, hfits, hon⟩ := hturn.of_targetLoop hboard hloop
  have hdef : o.Defined g 10 o.root :=
    (inside_root hturn.toConsistent hc).defined hturn.toConsistent hc hsize hfits hon 10
  have hsearch := o.search_eq g
  rw [if_pos hdef] at hsearch
  exact ⟨_, (run_eq_some_iff ..).mpr ⟨hloop, hsearch⟩⟩

section OneMove

variable {b : BoardSize} {cells : Cells} {turn : Turn} {g : Globals} {rand : ℕ → ℕ}
  (hturn : turn.PlaysOn b cells) (hg : g.OnMap b cells)

include hturn hg

theorem Globals.OnMap.construct : ∃ o g₁,
    SlavaStrategy.construct turn.self turn.world turn.game g = some (o, g₁) ∧
      Constructed turn g o g₁ ∧ OnBoard b cells o g₁ ∧ 0 ≤ g₁.moveIndex := by
  obtain ⟨hcons, rfl, rfl⟩ := hturn
  have hsome : (SlavaStrategy.construct turn.self turn.world turn.game g).isSome := by
    refine isSome_construct hcons.cells (fun t ht => (hcons.placed t ht).1) fun hfirst => ?_
    rcases hg with rfl | hkeeps
    · rfl
    · have := hkeeps.moveIndex
      omega
  obtain ⟨⟨o, g₁⟩, hcon⟩ := Option.isSome_iff_exists.mp hsome
  have hc := constructed_construct hcon
  obtain ⟨htarget, hinit, hlater⟩ := floydDist_of_construct hcon
  have hself : o.self.pos.isCorrect turn.world.size = true := by
    rw [hc.self_eq]
    exact hcons.self_placed.1
  refine ⟨o, g₁, hcon, hc, ?_⟩
  rcases hg with rfl | hkeeps
  · -- the first target is the corner of the board
    have hindex : g₁.moveIndex = 0 := hc.moveIndex_eq
    refine ⟨⟨hcons.cells, hcons.length_freePoints_le, hinit rfl, ?_, hself, ?_⟩, hindex.ge⟩
    · rw [hc.size_eq, if_pos hindex, World.size]
    · have hpos := (Point.isCorrect_iff _ _).mp hself
      rw [htarget, Point.isCorrect_iff]
      show (0 ≤ 0 ∧ 0 < turn.world.size.sizeX) ∧ 0 ≤ 0 ∧ 0 < turn.world.size.sizeY
      omega
  · have hindex := hc.moveIndex_eq
    have hnonneg := hkeeps.moveIndex
    have hne : g₁.moveIndex ≠ 0 := by omega
    refine ⟨⟨hcons.cells, hcons.length_freePoints_le, ?_, ?_, hself, ?_⟩, by omega⟩
    · rw [hlater (by omega)]
      exact hkeeps.table
    · rw [hc.size_eq, if_neg hne, hkeeps.size]
    · rw [htarget]
      exact hkeeps.target

/-- The object of a move has the distances of the map. -/
theorem Globals.OnMap.onBoard {o : SlavaStrategy} {g₁ : Globals}
    (hcon : SlavaStrategy.construct turn.self turn.world turn.game g = some (o, g₁)) :
    OnBoard b cells o g₁ ∧ 0 ≤ g₁.moveIndex := by
  obtain ⟨o', g₁', hcon', _, hboard⟩ := hg.construct hturn
  rw [hcon, Option.some.injEq, Prod.mk.injEq] at hcon'
  obtain ⟨rfl, rfl⟩ := hcon'
  exact hboard

/-- **What a move keeps**: the globals of the map stay, the action is legal, and the target is left
    at a free cell more than five steps from the trooper. -/
theorem Globals.OnMap.kept {fuel : ℕ} {action : Action} {g' : Globals}
    (hmove : MyStrategy.move rand fuel turn g = some (action, g')) :
    g'.Keeps b cells ∧ turn.LegalAction action ∧ GoodTarget b cells turn.self.pos g'.target ∧
      g'.moveIndex = g.moveIndex + 1 := by
  obtain ⟨o, g₁, s, hcon, hrun, hbest⟩ := (MyStrategy.move_eq_some_iff ..).mp hmove
  have hc := constructed_construct hcon
  obtain ⟨hboard, hindex⟩ := hg.onBoard hturn hcon
  obtain ⟨hloop, hsearch⟩ := (run_eq_some_iff ..).mp hrun
  obtain ⟨hsize, hmoveIndex, htable⟩ := run_frame hrun
  have hpos := hboard.resetTarget.size_pos
  obtain ⟨k, _, hgood, _, hrounds⟩ := (targetLoop_eq_some_true_iff
    (hboard.resetTarget.rejects rand) hpos.1.ne' hpos.2.ne' fuel g').mp hloop
  have htarget : GoodTarget b cells turn.self.pos g'.target := by
    rw [hrounds, ← hc.self_eq]
    exact hgood
  have hlegal : turn.LegalAction action :=
    MyStrategy.legal_of_size hmove (by rw [hsize, hboard.size, hturn.size_eq]) hturn.self_placed.1
  exact ⟨⟨hsize.trans hboard.size, htable ▸ hboard.table, htarget.1.1, hmoveIndex ▸ hindex⟩, hlegal,
    htarget, hmoveIndex.trans hc.moveIndex_eq⟩

variable (rand) in
/-- A move whose draws come to a target within its rounds returns. -/
theorem Globals.OnMap.move_of_drawn : ∃ n, ∀ fuel, ∀ j < fuel,
    GoodTarget b cells turn.self.pos (drawnCell rand b n j) →
      ∃ action g', MyStrategy.move rand fuel turn g = some (action, g') := by
  classical
  obtain ⟨o, g₁, hcon, hc, hboard, _⟩ := hg.construct hturn
  have hstart := hboard.resetTarget
  have hpos := hstart.size_pos
  refine ⟨(o.resetTarget g₁).draws, fun fuel j hj hgood => ?_⟩
  have hcome : ∃ k, GoodTarget b cells o.self.pos (candidate rand (o.resetTarget g₁) k) := by
    refine ⟨j + 1, ?_⟩
    rw [hc.self_eq, candidate, hstart.size]
    exact hgood
  have hfirst : Nat.find hcome ≤ fuel := (Nat.find_min' hcome (m := j + 1) (by
    rw [hc.self_eq, candidate, hstart.size]
    exact hgood)).trans hj
  have hloop := targetLoop_of_first (hstart.rejects rand) hpos.1.ne' hpos.2.ne' hfirst
    (Nat.find_spec hcome) fun j hj => Nat.find_min hcome hj
  generalize afterRounds rand (o.resetTarget g₁) (Nat.find hcome) = g' at hloop
  obtain ⟨s, hrun⟩ := hturn.exists_run hc hboard hloop
  exact ⟨_, g', (MyStrategy.move_eq_some_iff ..).mpr ⟨o, g₁, s, hcon, hrun, rfl⟩⟩

/-- A move with a target to find returns after a number of rounds. -/
theorem Globals.OnMap.exists_move (hfair : Fair rand b)
    (htarget : ∃ c, GoodTarget b cells turn.self.pos c) :
    ∃ fuel action g', MyStrategy.move rand fuel turn g = some (action, g') := by
  obtain ⟨n, hmove⟩ := hg.move_of_drawn rand hturn
  -- the draws come to the target in the end
  obtain ⟨c, hgood⟩ := htarget
  obtain ⟨j, hx, hy⟩ := hfair n c hgood.1.1
  refine ⟨j + 1, hmove (j + 1) j (Nat.lt_succ_self j) ?_⟩
  rw [drawnCell, hx, hy]
  exact hgood

end OneMove

/-! ## All moves -/

section Moves

variable {b : BoardSize} {cells : Cells} {turns : List Turn} {g : Globals} {rand : ℕ → ℕ}

/-- **What a process keeps**, by induction on its moves. -/
theorem Globals.OnMap.kept_moves (hturns : ∀ turn ∈ turns, turn.PlaysOn b cells)
    (hg : g.OnMap b cells) {fuel : ℕ} {actions : List Action} {g' : Globals}
    (h : MyStrategy.moves rand fuel turns g = some (actions, g')) :
    g'.OnMap b cells ∧ List.Forall₂ Turn.LegalAction turns actions ∧
      ∀ turn ∈ turns, ∃ c, GoodTarget b cells turn.self.pos c := by
  induction turns generalizing g actions with
  | nil =>
      cases h
      exact ⟨hg, .nil, by simp⟩
  | cons turn turns ih =>
      obtain ⟨hturn, hturns⟩ := List.forall_mem_cons.mp hturns
      obtain ⟨action, later, g₁, hmove, hlater, rfl⟩ :=
        (MyStrategy.moves_cons_eq_some_iff ..).mp h
      obtain ⟨hkeeps, hlegal, hgood, _⟩ := hg.kept hturn hmove
      obtain ⟨hkeeps', hlegal', hgood'⟩ := ih hturns (Or.inr hkeeps) hlater
      exact ⟨hkeeps', .cons hlegal hlegal', List.forall_mem_cons.mpr ⟨⟨_, hgood⟩, hgood'⟩⟩

/-- The globals behind the last move are those of the map and of that move. -/
theorem Globals.OnMap.kept_last {turn : Turn} (hturns : ∀ t ∈ turns ++ [turn], t.PlaysOn b cells)
    (hg : g.OnMap b cells) {fuel : ℕ} {actions : List Action} {g' : Globals}
    (h : MyStrategy.moves rand fuel (turns ++ [turn]) g = some (actions, g')) :
    g'.Keeps b cells ∧ GoodTarget b cells turn.self.pos g'.target ∧
      g'.moveIndex = g.moveIndex + turns.length + 1 := by
  induction turns generalizing g actions with
  | nil =>
      have hturn := hturns turn (List.mem_append_right _ (List.mem_singleton_self turn))
      obtain ⟨action, later, g₁, hmove, hlater, _⟩ := (MyStrategy.moves_cons_eq_some_iff ..).mp h
      cases hlater
      obtain ⟨hkeeps, _, hgood, hindex⟩ := hg.kept hturn hmove
      exact ⟨hkeeps, hgood, by simpa using hindex⟩
  | cons t turns ih =>
      obtain ⟨ht, hturns⟩ := List.forall_mem_cons.mp hturns
      obtain ⟨action, later, g₁, hmove, hlater, _⟩ := (MyStrategy.moves_cons_eq_some_iff ..).mp h
      obtain ⟨hkeeps, _, _, hindex⟩ := hg.kept ht hmove
      obtain ⟨hkeeps', hgood, hindex'⟩ := ih hturns (Or.inr hkeeps) hlater
      refine ⟨hkeeps', hgood, ?_⟩
      rw [hindex', hindex, List.length_cons]
      push_cast
      omega

/-- A process whose moves have targets to find returns after a number of rounds. -/
theorem Globals.OnMap.exists_moves (hfair : Fair rand b)
    (hturns : ∀ turn ∈ turns, turn.PlaysOn b cells) (hg : g.OnMap b cells)
    (htargets : ∀ turn ∈ turns, ∃ c, GoodTarget b cells turn.self.pos c) :
    ∃ fuel actions g', MyStrategy.moves rand fuel turns g = some (actions, g') := by
  induction turns generalizing g with
  | nil => exact ⟨0, [], g, rfl⟩
  | cons turn turns ih =>
      obtain ⟨hturn, hturns⟩ := List.forall_mem_cons.mp hturns
      obtain ⟨htarget, htargets⟩ := List.forall_mem_cons.mp htargets
      obtain ⟨fuel, action, g₁, hmove⟩ := hg.exists_move hturn hfair htarget
      obtain ⟨fuel', later, g', hlater⟩ := ih hturns (Or.inr (hg.kept hturn hmove).1) htargets
      exact ⟨max fuel fuel', action :: later, g', (MyStrategy.moves_cons_eq_some_iff ..).mpr
        ⟨action, later, g₁, MyStrategy.move_mono (le_max_left _ _) hmove,
          MyStrategy.moves_mono (le_max_right _ _) hlater, rfl⟩⟩

/-- **The process at any point between two moves** on one map: whatever the moves were, the board
    and the distances are those of the map, `move_index` counts the moves, the target is a free cell
    more than five steps from the trooper that moved last, and all moves were legal. -/
theorem process_kept {turn : Turn} (hturns : ∀ t ∈ turns ++ [turn], t.PlaysOn b cells) {fuel : ℕ}
    {actions : List Action}
    (h : MyStrategy.moves rand fuel (turns ++ [turn]) Globals.initial = some (actions, g)) :
    g.size = b ∧ g.moveIndex = turns.length ∧ ExactTable b cells g.floydDist ∧
      GoodTarget b cells turn.self.pos g.target ∧
      List.Forall₂ Turn.LegalAction (turns ++ [turn]) actions := by
  have hinitial : Globals.initial.OnMap b cells := Or.inl rfl
  obtain ⟨hkeeps, hgood, hindex⟩ := hinitial.kept_last hturns h
  obtain ⟨hcons, rfl, rfl⟩ := hturns turn (List.mem_append_right _ (List.mem_singleton_self turn))
  refine ⟨hkeeps.size, ?_, ?_, hgood, (hinitial.kept_moves hturns h).2.1⟩
  · rw [hindex]
    show (-1 : Int) + turns.length + 1 = turns.length
    omega
  · exact ExactTable.of_floyd hcons.cells hcons.length_freePoints_le hkeeps.table

end Moves

theorem yardTurn_playsOn : yardTurn.PlaysOn ⟨4, 3⟩ yardCells := ⟨yardTurn_consistent, rfl, rfl⟩

theorem commanderTurn_playsOn : commanderTurn.PlaysOn ⟨4, 3⟩ yardCells :=
  ⟨commanderTurn_consistent, rfl, rfl⟩

/-- The medic heals the commander, who shoots at the enemy. -/
theorem moves_yard : MyStrategy.moves (fun _ => 8) 1 ([yardTurn] ++ [commanderTurn]) Globals.initial
    = some ([makeActionAt .useMedikit ⟨0, 0⟩, makeActionAt .shoot ⟨3, 2⟩],
      { yardGlobals with moveIndex := 1 }) := by decide +kernel

theorem process_kept_yard : ∃ actions g,
    MyStrategy.moves (fun _ => 8) 1 ([yardTurn] ++ [commanderTurn]) Globals.initial
      = some (actions, g) ∧ g.moveIndex = 1 ∧
        List.Forall₂ Turn.LegalAction [yardTurn, commanderTurn] actions := by
  have hturns : ∀ t ∈ [yardTurn] ++ [commanderTurn], t.PlaysOn ⟨4, 3⟩ yardCells :=
    List.forall_mem_cons.mpr
      ⟨yardTurn_playsOn, List.forall_mem_singleton.mpr commanderTurn_playsOn⟩
  have hkept := process_kept hturns moves_yard
  exact ⟨_, _, moves_yard, hkept.2.1, hkept.2.2.2.2⟩

end CodeTroopers
