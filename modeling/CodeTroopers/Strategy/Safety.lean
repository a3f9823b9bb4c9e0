import CodeTroopers.Strategy.BoardAccess
import CodeTroopers.Strategy.Cohesion
import CodeTroopers.Strategy.PlanRuns
import CodeTroopers.Strategy.TargetLoop
import CodeTroopers.Strategy.Threat

set_option autoImplicit false

/-! # A move on consistent data

The search indexes the cells, the distance table and the visibility table with positions and stances
it has computed itself, and asks for the damage of a stance. On consistent data all of this is
inside its bounds, by an invariant of the nodes of the search (`Inside`): the position is the start
cell or an open cell of the board, and the stance one of the three. -/

namespace CodeTroopers

open CheckedVector

/-- The data of a move agree: the dimensions of the two tables, the troopers on the board in one of
    the three stances, and a team. -/
structure Turn.Consistent (turn : Turn) : Prop where
  cells : CellsFit turn.world.size turn.world.cells
  visibilities : (turn.world.cellVisibilities.length : Int) = turn.world.width.toInt *
    turn.world.height.toInt * turn.world.width.toInt * turn.world.height.toInt * 3
  visibilities_lt : (turn.world.cellVisibilities.length : Int) < 2 ^ 31
  self_placed : turn.self.Placed turn.world
  placed : ∀ t ∈ turn.world.troopers, t.Placed turn.world
  teammate : ∃ t ∈ turn.world.troopers, t.teammate = true

/-- A free cell of the board on which no listed trooper stands. -/
def Turn.OpenCell (turn : Turn) (p : Point) : Prop :=
  FreeCell turn.world.size turn.world.cells p ∧ ∀ t ∈ turn.world.troopers, t.pos ≠ p

/-- The arguments of a call of `isVisible`, apart from the range. -/
structure Sight where
  viewer : Point
  viewerStance : TrooperStance
  object : Point
  objectStance : TrooperStance

/-- The call reads the table inside its bounds, and no value on the way to the index leaves the
    range of an `int`. -/
def Sight.InRange (s : Sight) (w : World) : Prop :=
  let m := min s.viewerStance.toInt s.objectStance.toInt
  let index := visibilityIndex w.width.toInt w.height.toInt s.viewer.x s.viewer.y s.object.x
    s.object.y m
  (0 ≤ index ∧ index < w.cellVisibilities.length) ∧
    ∀ v ∈ visibilityTerms w.width.toInt w.height.toInt s.viewer.x s.viewer.y s.object.x s.object.y
        m, 0 ≤ v ∧ v < 2 ^ 31

/-- On consistent data every call between board cells and stances of the game is in range. -/
theorem Turn.Consistent.inRange {turn : Turn} (hturn : turn.Consistent) {s : Sight}
    (hviewer : s.viewer.isCorrect turn.world.size = true)
    (hobject : s.object.isCorrect turn.world.size = true) (hs : s.viewerStance ∈ allStances)
    (ht : s.objectStance ∈ allStances) : s.InRange turn.world := by
  obtain ⟨hm0, hm⟩ := min_stance_bounds hs ht
  have hindex := visibilityIndex_bounds hviewer hobject hm0 hm
  rw [← hturn.visibilities] at hindex
  refine ⟨hindex, fun v hv => ?_⟩
  obtain ⟨hv0, hv⟩ := visibilityTerms_bounds hviewer hobject hm0 v hv
  have hlt := hturn.visibilities_lt
  omega

theorem Turn.Consistent.board_lt {turn : Turn} (h : turn.Consistent) :
    turn.world.width.toInt * turn.world.height.toInt * turn.world.width.toInt
      * turn.world.height.toInt * 3 < 2 ^ 31 := by
  rw [← h.visibilities]
  exact h.visibilities_lt

theorem Turn.Consistent.cells_le {turn : Turn} (h : turn.Consistent) :
    turn.world.size.sizeX * turn.world.size.sizeY ≤ 26754 := by
  have hlt := h.board_lt
  simp only [World.size]
  by_contra hlarge
  have hsquare : (26755 : Int) * 26755 ≤ turn.world.width.toInt * turn.world.height.toInt
      * (turn.world.width.toInt * turn.world.height.toInt) :=
    Int.mul_le_mul (by omega) (by omega) (by decide) (by omega)
  rw [← mul_assoc] at hsquare
  omega

theorem Turn.Consistent.card_freePoints_le {turn : Turn} (h : turn.Consistent) :
    (freePoints turn.world.size turn.world.cells).length ≤ 26754 := by
  have hpos := (Point.isCorrect_iff _ _).mp h.self_placed.1
  have hcard := CodeTroopers.length_freePoints_le turn.world.cells (b := turn.world.size) (by omega)
    (by omega)
  have hcells := h.cells_le
  omega

/-- The distances of the board are below the sentinel. -/
theorem Turn.Consistent.length_freePoints_le {turn : Turn} (h : turn.Consistent) :
    (freePoints turn.world.size turn.world.cells).length ≤ 5 * 10 ^ 8 :=
  h.card_freePoints_le.trans (by decide)

namespace SlavaStrategy

/-- The calls of `isVisible` at a state: from each enemy in the stances the score tries, and to each
    enemy. -/
def sights (o : SlavaStrategy) (state : State) : List Sight :=
  o.enemies.flatMap fun enemy =>
    (o.stances.map fun stance => ⟨enemy.pos, stance, state.pos, state.stance⟩) ++
      [⟨state.pos, state.stance, enemy.pos, enemy.stance⟩]

/-- Everything the search does at a node is inside its bounds. -/
structure SafeNode (turn : Turn) (o : SlavaStrategy) (g : Globals) (node : Node) : Prop where
  position : node.state.pos = turn.self.pos ∨ turn.OpenCell node.state.pos
  stance : node.state.stance ∈ allStances
  /-- `self.getDamage(state.stance)` does not reach `exit(10030)` -/
  damage : (o.self.getDamage node.state.stance).isSome
  /-- `floyd_dist` is read for the target and for every teammate -/
  distances : ∀ q ∈ g.target :: o.teammates.map Trooper.pos,
    (minDistance g.floydDist node.state.pos q).isSome
  /-- `cells` is read at every neighbour -/
  cells : ∀ n ∈ node.state.pos.neighs g.size, (cellAt o.cells n).isSome
  visibilities : ∀ sight ∈ o.sights node.state, sight.InRange turn.world

/-- The invariant of the search. -/
structure Inside (turn : Turn) (node : Node) : Prop where
  position : node.state.pos = turn.self.pos ∨ turn.OpenCell node.state.pos
  stance : node.state.stance ∈ allStances

/-! ## The invariant -/

section Search

variable {turn : Turn} {o : SlavaStrategy} {g₀ g₁ g : Globals} (hturn : turn.Consistent)
  (hc : Constructed turn g₀ o g₁)

theorem Inside.isCorrect (hturn : turn.Consistent) {node : Node} (h : Inside turn node) :
    node.state.pos.isCorrect turn.world.size = true := by
  rcases h.position with hpos | hpos
  · rw [hpos]
    exact hturn.self_placed.1
  · exact hpos.1.1

include hturn hc

theorem inside_root : Inside turn o.root := by
  obtain ⟨_, hpos, hstance⟩ := o.root_state
  rw [hc.self_eq] at hpos hstance
  exact ⟨Or.inl hpos, by rw [hstance]; exact hturn.self_placed.2⟩

/-- A step keeps the invariant: a move leads to an open cell, and the stance changes stay among the
    three. -/
theorem Inside.next {node : Node} (h : Inside turn node) {step : Step}
    (hstep : step ∈ o.steps g node) : Inside turn (o.next g node step) := by
  have henabled := ((o.mem_steps_iff g node step).mp hstep).2
  refine ⟨?_, ?_⟩
  · rw [next_pos]
    cases step with
    | move n =>
        obtain ⟨hfree, hempty⟩ := hc.free_of_cellAt henabled.2
        exact Or.inr ⟨⟨hturn.cells.isCorrect_of_cellAt hfree, hfree⟩, hempty⟩
    | _ => exact h.position
  · rw [next_stance]
    cases step with
    | raiseStance =>
        show (if node.state.stance = .prone then .kneeling else .standing) ∈ allStances
        split_ifs <;> simp [allStances]
    | lowerStance =>
        show (if node.state.stance = .standing then .kneeling else .prone) ∈ allStances
        split_ifs <;> simp [allStances]
    | _ => exact h.stance

/-- Every node of the search is inside. -/
theorem Run.inside {path : List Step} {node : Node} (hrun : o.Run g o.root path node) :
    Inside turn node := by
  refine DepthFirst.Run.invariant (fun node hnode c hchild => ?_) hrun (inside_root hturn hc)
  obtain ⟨hstep, hnext⟩ := (o.mem_children_iff g node c).mp hchild
  rw [hnext]
  exact hnode.next hturn hc hstep

/-! ## The accesses -/

theorem exists_cellAt_cells {n : Point} (hn : n.isCorrect turn.world.size = true) :
    ∃ c, cellAt o.cells n = some c := by
  by_cases htrooper : ∃ t ∈ turn.world.troopers, t.pos = n
  · exact ⟨_, hc.cellAt_of_trooper n htrooper⟩
  · rw [hc.cellAt_of_empty n fun t ht htn => htrooper ⟨t, ht, htn⟩]
    exact hturn.cells.exists_cellAt hn

omit hturn in
theorem mem_allStances_of_mem_stances {stance : TrooperStance} (h : stance ∈ o.stances) :
    stance ∈ allStances := by
  rw [hc.stances_eq] at h
  split_ifs at h
  · exact h
  · exact absurd h List.not_mem_nil

theorem enemy_placed {enemy : Trooper} (h : enemy ∈ o.enemies) : enemy.Placed turn.world := by
  rw [hc.enemies_eq] at h
  exact hturn.placed enemy (List.mem_of_mem_filter h)

theorem mate_placed {mate : Trooper} (h : mate ∈ o.teammates) : mate.Placed turn.world := by
  rw [hc.teammates_eq] at h
  exact hturn.placed mate (List.mem_of_mem_filter h)

theorem teammates_length_ne_zero : o.teammates.length ≠ 0 := by
  obtain ⟨t, ht, hmate⟩ := hturn.teammate
  have hmem : t ∈ o.teammates := by
    rw [hc.teammates_eq]
    exact List.mem_filter.mpr ⟨ht, hmate⟩
  exact (List.length_pos_of_mem hmem).ne'

variable (hsize : g.size = turn.world.size) (hfits : TableFits turn.world.size g.floydDist)
  (htarget : g.target.isCorrect turn.world.size = true)

include hsize hfits htarget

theorem Inside.safeNode {node : Node} (h : Inside turn node) : SafeNode turn o g node := by
  have hpos := h.isCorrect hturn
  refine ⟨h.position, h.stance, ?_, fun q hq => ?_, fun n hn => ?_, fun sight hsight => ?_⟩
  · have hdamage : ∀ stance ∈ allStances, (o.self.getDamage stance).isSome := by
      simp [allStances, Trooper.getDamage]
    exact hdamage _ h.stance
  · have hq' : q.isCorrect turn.world.size = true := by
      rcases List.mem_cons.mp hq with rfl | hq
      · exact htarget
      · obtain ⟨mate, hmate, rfl⟩ := List.mem_map.mp hq
        exact (mate_placed hturn hc hmate).1
    obtain ⟨_, _, _, v, h₁, h₂, h₃, h₄, _⟩ := hfits.exists_path hpos hq'
    simp [minDistance, h₁, h₂, h₃, h₄]
  · rw [hsize, Point.mem_neighs_iff_hasNeigh _ _ _ hpos, Point.hasNeigh_iff] at hn
    obtain ⟨c, hcell⟩ := exists_cellAt_cells hturn hc hn.1
    rw [hcell]
    rfl
  · obtain ⟨enemy, henemy, hsight⟩ := List.mem_flatMap.mp hsight
    obtain ⟨henemy, hstance⟩ := enemy_placed hturn hc henemy
    rcases List.mem_append.mp hsight with hsight | hsight
    · obtain ⟨stance, hmem, rfl⟩ := List.mem_map.mp hsight
      exact hturn.inRange henemy hpos (mem_allStances_of_mem_stances hc hmem) h.stance
    · rw [List.mem_singleton.mp hsight]
      exact hturn.inRange hpos henemy h.stance hstance

theorem Inside.isSome_scoreState {node : Node} (h : Inside turn node) :
    (o.scoreState g node.state).isSome := by
  have hpos := h.isCorrect hturn
  have hdistances := (h.safeNode hturn hc hsize hfits htarget).distances
  have hmates : (o.matesDist g node.state).isSome := by
    refine isSome_foldlM _ _ (fun mate hmate d => ?_) _
    rw [Option.isSome_map]
    exact hdistances _ (List.mem_cons_of_mem _ (List.mem_map_of_mem hmate))
  have henemies : (o.shootingEnemies node.state).isSome := by
    refine isSome_foldlM _ _ (fun enemy henemy n => ?_) _
    rw [Option.isSome_map, isShooting]
    split_ifs
    · rfl
    · refine isSome_foldlM _ _ (fun stance hstance seen => ?_) _
      rw [Option.isSome_map, seenFrom, hc.world_eq]
      exact isSome_isVisible hturn.visibilities _ (enemy_placed hturn hc henemy).1 hpos
        (mem_allStances_of_mem_stances hc hstance) h.stance
  obtain ⟨d, hd⟩ := Option.isSome_iff_exists.mp hmates
  obtain ⟨n, hn⟩ := Option.isSome_iff_exists.mp henemies
  obtain ⟨e, he⟩ := Option.isSome_iff_exists.mp (hdistances g.target List.mem_cons_self)
  simp [scoreState, hd, hn, he, teammates_length_ne_zero hturn hc]

/-- **Every access below a node inside is defined**, by induction on the levels of the search. -/
theorem Inside.defined (n : ℕ) {node : Node} (h : Inside turn node) : o.Defined g n node := by
  induction n generalizing node with
  | zero => exact h.isSome_scoreState hturn hc hsize hfits htarget
  | succ n ih =>
      have hsafe := h.safeNode hturn hc hsize hfits htarget
      refine ⟨h.isSome_scoreState hturn hc hsize hfits htarget, fun _ enemy henemy => ?_,
        fun _ => hsafe.cells, fun step hstep => ih (h.next hturn hc hstep)⟩
      refine ⟨?_, fun _ => hsafe.damage⟩
      obtain ⟨hboard, hstance⟩ := enemy_placed hturn hc henemy
      rw [seesEnemy, hc.world_eq]
      exact isSome_isVisible hturn.visibilities _ (h.isCorrect hturn) hboard h.stance hstance

end Search

/-- **A move on consistent data is safe.** Once the target loop has been left, every access of the
    search is defined, so that `run()` returns; and at every node the stance is one of the three,
    the position is the start cell or an open cell of the board, and everything the node reads is
    inside its bounds. -/
theorem search_safe {rand : ℕ → ℕ} {fuel : ℕ} {turn : Turn} {g₀ g₁ g : Globals} {o : SlavaStrategy}
    (hturn : turn.Consistent)
    (hcon : construct turn.self turn.world turn.game g₀ = some (o, g₁))
    (hsize : g₁.size = turn.world.size)
    (hfloyd : floyd turn.world.size turn.world.cells [] = some g₁.floydDist)
    (hloop : targetLoop rand o fuel (o.resetTarget g₁) = some (true, g)) :
    o.Defined g 10 o.root ∧ (∃ s, o.run rand fuel g₁ = some (s, g)) ∧
      ∀ p ∈ o.plans g 10 o.root, SafeNode turn o g p.2 := by
  have hc := constructed_construct hcon
  obtain ⟨hsize', htable, d, hd, _⟩ := exists_minDistance_of_targetLoop hloop
  -- the table has the board's shape, so the target it has been read at is on the board
  obtain ⟨t, _, hrun, hrep, _⟩ := exists_floyd hturn.cells
  have hfits : TableFits turn.world.size g.floydDist := by
    rw [hfloyd, Option.some.injEq] at hrun
    rw [htable, hrun]
    exact hrep.fits
  have htarget : g.target.isCorrect turn.world.size = true := by
    rw [htable] at hfits
    exact (hfits.isCorrect_of_minDistance hd).2
  rw [hsize] at hsize'
  have hroot := inside_root hturn hc
  have hdef : o.Defined g 10 o.root := hroot.defined hturn hc hsize' hfits htarget 10
  refine ⟨hdef, ?_, fun p hp => ?_⟩
  · have hsearch := o.search_eq g
    rw [if_pos hdef] at hsearch
    exact ⟨_, (run_eq_some_iff rand fuel o g₁ g _).mpr ⟨hloop, hsearch⟩⟩
  · have hinside := Run.inside hturn hc ((o.mem_plans_iff g 10 o.root p).mp hp).1
    exact hinside.safeNode hturn hc hsize' hfits htarget

end SlavaStrategy

theorem watchedTurn_consistent : watchedTurn.Consistent where
  cells := ⟨by decide, by decide, by decide⟩
  visibilities := by
    rw [show watchedTurn.world.cellVisibilities.length = 192 from List.length_replicate]
    decide
  visibilities_lt := by
    rw [show watchedTurn.world.cellVisibilities.length = 192 from List.length_replicate]
    decide
  self_placed := by decide
  placed := by decide
  teammate := ⟨woundedTrooper, List.mem_cons_self, rfl⟩

/-! ## The yard -/

theorem length_yard (troopers : List Trooper) :
    (yard troopers).cellVisibilities.length = 432 := List.length_replicate

theorem yard_seen (troopers : List Trooper) : ((432 : ℕ) : Int) =
    (yard troopers).width.toInt * (yard troopers).height.toInt *
      (yard troopers).width.toInt * (yard troopers).height.toInt * 3 := by
  show ((432 : ℕ) : Int) = Int32.toInt 4 * Int32.toInt 3 * Int32.toInt 4 * Int32.toInt 3 * 3
  decide

theorem cellsFit_yard : CellsFit ⟨4, 3⟩ yardCells := ⟨by decide, by decide, by decide⟩

theorem yard_consistent {self : Trooper} {troopers : List Trooper} {game : Game}
    (hself : self.Placed (yard troopers)) (hplaced : ∀ t ∈ troopers, t.Placed (yard troopers))
    (hmate : ∃ t ∈ troopers, t.teammate = true) :
    Turn.Consistent ⟨self, yard troopers, game⟩ where
  cells := cellsFit_yard
  visibilities := by
    rw [length_yard]
    exact yard_seen troopers
  visibilities_lt := by
    rw [length_yard]
    decide
  self_placed := hself
  placed := hplaced
  teammate := hmate

theorem yardTurn_consistent : yardTurn.Consistent :=
  yard_consistent (by decide) (by decide) ⟨yardMedic, List.mem_cons_self, rfl⟩

theorem commanderTurn_consistent : commanderTurn.Consistent :=
  yard_consistent (by decide) (by decide)
    ⟨commanderTurn.self, List.mem_cons_of_mem _ List.mem_cons_self, rfl⟩

/-- A row of the yard. -/
theorem yard_reachable : (freeGraph ⟨4, 3⟩ yardCells).Reachable ⟨0, 0⟩ ⟨1, 0⟩ := by
  refine SimpleGraph.Adj.reachable ?_
  show FreeCell _ _ _ ∧ FreeCell _ _ _ ∧ _
  unfold FreeCell
  decide

theorem floyd_yard : floyd ⟨4, 3⟩ yardCells [] = some openingGlobals.floydDist :=
  floyd_eq_some_getD cellsFit_yard (by decide)

theorem search_safe_yard :
    yardStrategy.Defined yardGlobals 10 yardStrategy.root ∧
      (∃ s, yardStrategy.run (fun _ => 8) 1 openingGlobals = some (s, yardGlobals)) ∧
      ∀ p ∈ yardStrategy.plans yardGlobals 10 yardStrategy.root,
        SlavaStrategy.SafeNode yardTurn yardStrategy yardGlobals p.2 :=
  SlavaStrategy.search_safe yardTurn_consistent construct_yard rfl floyd_yard
    (targetLoop_yard rfl)

end CodeTroopers
