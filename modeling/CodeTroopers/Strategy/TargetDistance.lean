import CodeTroopers.Strategy.LegalAction
import CodeTroopers.Strategy.PlanRuns
import CodeTroopers.Strategy.TargetLoop

set_option autoImplicit false

/-! # The distance to the target along a plan

The moves of a plan are steps between free cells of the map, since the copy of the map on which they
are made only has more obstacles. They are a walk of the graph whose distances `floyd()` has
computed (`Run.exists_walk`), and the target stays as near and as reachable as the walk is long.
-/

namespace CodeTroopers

theorem exists_adj_of_reachable {b : BoardSize} {cells : Cells} {p q : Point} (hpq : p ≠ q)
    (hr : (freeGraph b cells).Reachable p q) : ∃ r, (freeGraph b cells).Adj p r := by
  obtain ⟨w⟩ := hr
  cases w with
  | nil => exact absurd rfl hpq
  | cons hadj _ => exact ⟨_, hadj⟩

/-- **Distances to a fixed cell along a walk.** From a cell with a known distance to the target, a
    walk leads to cells whose entry differs by at most its length, the target itself included. -/
theorem ExactTable.minDistance_walk {b : BoardSize} {cells : Cells} {t : DistanceTable}
    (ht : ExactTable b cells t) {p q target : Point} (hne : p ≠ target)
    (hr : (freeGraph b cells).Reachable p target)
    (hfar : 2 ≤ (freeGraph b cells).dist p target) (w : (freeGraph b cells).Walk p q) :
    ∃ d, minDistance t q target = some d ∧
      |d - (freeGraph b cells).dist p target| ≤ w.length ∧ d ≠ inf := by
  obtain ⟨w₀, hw₀⟩ := hr.exists_walk_length_eq_dist
  by_cases hq : q = target
  · -- the diagonal holds the way to a neighbour and back
    subst hq
    obtain ⟨r, hadj⟩ := exists_adj_of_reachable hne.symm hr.symm
    have hle := (freeGraph b cells).dist_le w
    refine ⟨2, ht.diagonal q r hadj, ?_, by decide⟩
    rw [abs_le]
    omega
  · have hrq : (freeGraph b cells).Reachable q target := ⟨w.reverse.append w₀⟩
    obtain ⟨w₁, hw₁⟩ := hrq.exists_walk_length_eq_dist
    have hle : (freeGraph b cells).dist q target
        ≤ w.length + (freeGraph b cells).dist p target := by
      have := (freeGraph b cells).dist_le (w.reverse.append w₀)
      rwa [SimpleGraph.Walk.length_append, SimpleGraph.Walk.length_reverse, hw₀] at this
    have hge : (freeGraph b cells).dist p target
        ≤ w.length + (freeGraph b cells).dist q target := by
      have := (freeGraph b cells).dist_le (w.append w₁)
      rwa [SimpleGraph.Walk.length_append, hw₁] at this
    refine ⟨_, ht.connected q target hq hrq, ?_, (ht.dist_lt q target hq hrq).ne⟩
    rw [abs_le]
    omega

namespace SlavaStrategy

theorem Run.exists_walk {b : BoardSize} {cells : Cells} {o : SlavaStrategy} {g : Globals}
    (hcells : ∀ n, cellAt o.cells n = some .free → FreeCell b cells n) {node node' : Node}
    {path : List Step} (hrun : o.Run g node path node') (hnode : FreeCell b cells node.state.pos) :
    ∃ w : (freeGraph b cells).Walk node.state.pos node'.state.pos,
      w.length = path.countP Step.isMove := by
  induction hrun with
  | nil node => exact ⟨.nil, rfl⟩
  | @cons node next _ step path hedge _ ih =>
      obtain ⟨hstep, hnext⟩ := (o.mem_children_iff g node (step, next)).mp hedge
      dsimp only at hstep hnext
      have hpos := o.next_pos g node step
      rw [← hnext] at hpos
      have henabled := ((o.mem_steps_iff g node step).mp hstep).2
      cases step with
      | move n =>
          obtain ⟨hneigh, hfree⟩ := henabled
          dsimp only at hpos
          have hn := hcells n hfree
          rw [hpos] at ih
          obtain ⟨w, hw⟩ := ih hn
          have hadj : (freeGraph b cells).Adj node.state.pos n :=
            ⟨hnode, hn, Point.adjacent_of_mem_neighs hneigh⟩
          exact ⟨.cons hadj w, by simp [hw, List.countP_cons, Step.isMove]⟩
      | _ =>
          dsimp only at hpos
          rw [hpos] at ih
          obtain ⟨w, hw⟩ := ih hnode
          exact ⟨w, by simp [hw, Step.isMove]⟩

section Search

variable {rand : ℕ → ℕ} {fuel : ℕ} {turn : Turn} {g₀ g₁ g : Globals} {o : SlavaStrategy}
  (hcon : construct turn.self turn.world turn.game g₀ = some (o, g₁))
  (hfit : CellsFit turn.world.size turn.world.cells)
  (hfree : (freePoints turn.world.size turn.world.cells).length ≤ 5 * 10 ^ 8)
  (hfloyd : floyd turn.world.size turn.world.cells [] = some g₁.floydDist)
  (hloop : targetLoop rand o fuel (o.resetTarget g₁) = some (true, g))

include hcon hfit hfree hfloyd hloop

/-- The search starts with a table of the map and a target far from the trooper. -/
theorem exactTable_of_targetLoop :
    ExactTable turn.world.size turn.world.cells g.floydDist ∧ turn.self.pos ≠ g.target ∧
      (freeGraph turn.world.size turn.world.cells).Reachable turn.self.pos g.target ∧
      5 < (freeGraph turn.world.size turn.world.cells).dist turn.self.pos g.target := by
  have ht := ExactTable.of_floyd hfit hfree hfloyd
  obtain ⟨_, htable, d₀, hd₀, hfar, hfinite⟩ := exists_minDistance_of_targetLoop hloop
  rw [(constructed_construct hcon).self_eq] at hd₀
  obtain ⟨hself, htarget⟩ := ht.fits.isCorrect_of_minDistance hd₀
  -- the loop has been left with a good target
  obtain ⟨d, hd, hgood⟩ := ht.minDistance_target hself htarget
  obtain rfl : d = d₀ := Option.some.inj (hd.symm.trans hd₀)
  obtain ⟨_, hr, hdist⟩ := hgood.mpr (by omega)
  refine ⟨htable ▸ ht, fun heq => ?_, hr, hdist⟩
  rw [heq, SimpleGraph.dist_self] at hdist
  omega

theorem exists_walk_of_targetLoop {p : List Step × Node} (hp : p ∈ o.plans g 10 o.root) :
    ∃ w : (freeGraph turn.world.size turn.world.cells).Walk turn.self.pos p.2.state.pos,
      w.length = p.1.countP Step.isMove := by
  have hc := constructed_construct hcon
  obtain ⟨_, hne, hr, _⟩ := exactTable_of_targetLoop hcon hfit hfree hfloyd hloop
  have hroot : o.root.state.pos = turn.self.pos := by rw [o.root_state.2.1, hc.self_eq]
  have hcells : ∀ n, cellAt o.cells n = some .free →
      FreeCell turn.world.size turn.world.cells n := fun n hn =>
    have hn' := (hc.free_of_cellAt hn).1
    ⟨hfit.isCorrect_of_cellAt hn', hn'⟩
  have hwalk := Run.exists_walk hcells ((o.mem_plans_iff g 10 o.root p).mp hp).1
  rw [hroot] at hwalk
  exact hwalk (freeCell_of_reachable hne hr).1

/-- **The distance to the target along a plan** is never the sentinel, and `m` moves change it by at
    most `m`. -/
theorem targetDist_bounded {p : List Step × Node} (hp : p ∈ o.plans g 10 o.root) :
    ∃ d₀ d, minDistance g.floydDist turn.self.pos g.target = some d₀ ∧
      minDistance g.floydDist p.2.state.pos g.target = some d ∧
      |d - d₀| ≤ p.1.countP Step.isMove ∧ d ≠ inf := by
  obtain ⟨ht, hne, hr, hdist⟩ := exactTable_of_targetLoop hcon hfit hfree hfloyd hloop
  obtain ⟨w, hw⟩ := exists_walk_of_targetLoop hcon hfit hfree hfloyd hloop hp
  obtain ⟨d, hd, hle, hfinite⟩ := ht.minDistance_walk hne hr (by omega) w
  exact ⟨_, d, ht.connected _ _ hne hr, hd, by rw [← hw]; exact hle, hfinite⟩

end Search

end SlavaStrategy

/-- A move of the trooper that is alone in the corridor, with the points for two steps. -/
def walkingTurn : Turn :=
  let self := { woundedTrooper with actionPoints := 2 }
  ⟨self, corridor [self] [], { medikitGame with standingMoveCost := 1 }⟩

/-- The object built for it. -/
def walkingStrategy : SlavaStrategy where
  self := walkingTurn.self
  world := walkingTurn.world
  game := walkingTurn.game
  cells := [.lowCover] :: List.replicate 7 [.free]
  teammates := [walkingTurn.self]
  enemies := []
  stances := []

/-- The plan of two steps. -/
def twoSteps : List Step × Node :=
  let path := [Step.move ⟨1, 0⟩, Step.move ⟨2, 0⟩]
  (path, path.foldl (walkingStrategy.next secondGlobals) walkingStrategy.root)

theorem construct_walking :
    SlavaStrategy.construct walkingTurn.self walkingTurn.world walkingTurn.game corridorGlobals
      = some (walkingStrategy, secondGlobals) := rfl

theorem cellsFit_walking : CellsFit walkingTurn.world.size walkingTurn.world.cells :=
  ⟨by decide, by decide, by decide⟩

theorem floyd_walking :
    floyd walkingTurn.world.size walkingTurn.world.cells [] = some secondGlobals.floydDist :=
  floyd_eq_some_getD cellsFit_walking (by decide)

theorem targetLoop_walking :
    SlavaStrategy.targetLoop (fun _ => 7) walkingStrategy 0
      (walkingStrategy.resetTarget secondGlobals) = some (true, secondGlobals) := by decide

theorem twoSteps_mem_plans :
    twoSteps ∈ walkingStrategy.plans secondGlobals 10 walkingStrategy.root := by decide

theorem targetDist_bounded_two_steps :
    ∃ d₀ d, minDistance secondGlobals.floydDist walkingTurn.self.pos secondGlobals.target
        = some d₀ ∧
      minDistance secondGlobals.floydDist twoSteps.2.state.pos secondGlobals.target = some d ∧
      |d - d₀| ≤ twoSteps.1.countP Step.isMove ∧ d ≠ inf :=
  SlavaStrategy.targetDist_bounded construct_walking cellsFit_walking (by decide) floyd_walking
    targetLoop_walking twoSteps_mem_plans

end CodeTroopers
