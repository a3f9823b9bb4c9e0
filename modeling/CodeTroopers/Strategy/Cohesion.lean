import CodeTroopers.Strategy.DistanceMetric
import CodeTroopers.Strategy.FloydPoints
import CodeTroopers.Strategy.TargetDistance
import Mathlib.Algebra.Order.BigOperators.Group.List

set_option autoImplicit false

/-! # The cohesion term of the score

The score subtracts `60 * mates_dist / teammates.size()`, and unlike the target loop it does not ask
whether a distance is the sentinel. The positions a search explores are connected to the trooper's
cell, so whether the term fits into an `int` depends on the teammates alone: it does if all of them
are connected to that cell, and one that is not is enough to leave the range. -/

namespace CodeTroopers

open CheckedVector

theorem length_freePoints_le {b : BoardSize} (cells : Cells) (hx : 0 ≤ b.sizeX)
    (hy : 0 ≤ b.sizeY) : ((freePoints b cells).length : Int) ≤ b.sizeX * b.sizeY := by
  have hboard : (boardPoints b).length = b.sizeX.toNat * b.sizeY.toNat := by
    simp [boardPoints, List.length_flatMap]
  have hle : (freePoints b cells).length ≤ b.sizeX.toNat * b.sizeY.toNat :=
    hboard ▸ List.length_filter_le _ _
  calc ((freePoints b cells).length : Int)
      ≤ ((b.sizeX.toNat * b.sizeY.toNat : ℕ) : Int) := by exact_mod_cast hle
    _ = b.sizeX * b.sizeY := by
        rw [Nat.cast_mul, Int.toNat_of_nonneg hx, Int.toNat_of_nonneg hy]

section Entries

variable {b : BoardSize} {cells : Cells} {t : DistanceTable} (ht : ExactTable b cells t)
  {p q : Point}

include ht

theorem ExactTable.exists_nonneg (hp : p.isCorrect b = true) (hq : q.isCorrect b = true) :
    ∃ v, minDistance t p q = some v ∧ 0 ≤ v := by
  obtain ⟨v, hread, -⟩ := ht.exists_le_inf hp hq
  refine ⟨v, hread, ?_⟩
  by_cases hv : v = inf
  · rw [hv]
    decide
  · obtain ⟨w, -, rfl⟩ := ht.exists_walk hread hv
    exact Int.natCast_nonneg _

/-- From a cell with a neighbour, the entries of connected cells are bounded by their number. -/
theorem ExactTable.exists_le_card {r : Point} (hadj : (freeGraph b cells).Adj p r)
    (hr : (freeGraph b cells).Reachable p q) :
    ∃ v, minDistance t p q = some v ∧ 0 ≤ v ∧ v ≤ max 2 ((freePoints b cells).length : Int) := by
  by_cases hpq : p = q
  · subst hpq
    exact ⟨2, ht.diagonal p r hadj, by decide, le_max_left ..⟩
  · refine ⟨_, ht.connected p q hpq hr, Int.natCast_nonneg _, ?_⟩
    obtain ⟨w, hw, hlen⟩ := hr.exists_path_of_dist
    have hlt : w.length < (freePoints b cells).length ∨ w.length = 0 :=
      InPlaceFloyd.length_lt_of_isPath (fun p q h => ((freeGraph_adj_iff b cells p q).mp h).1) w hw
    omega

end Entries

namespace SlavaStrategy

variable (o : SlavaStrategy) (g : Globals)

/-- The distances `mates_dist` adds up. -/
def mateDistances (state : State) : Option (List Int) :=
  o.teammates.mapM fun mate => minDistance g.floydDist state.pos mate.pos

theorem matesDist_eq (state : State) :
    o.matesDist g state = (o.mateDistances g state).map List.sum := by
  rw [matesDist, foldlM_add, mateDistances]
  simp only [Int.zero_add]

/-- The cohesion term is computed as it is meant. -/
structure CohesionLaw (state : State) : Prop where
  /-- `mates_dist` fits into an `int` after every teammate... -/
  sums : ∀ mates, mates <+: o.teammates →
    ∃ d, { o with teammates := mates }.matesDist g state = some d ∧ IntRange d
  /-- ...and so does its multiple, and the quotient taken in `size_t` is that of the distances. -/
  term : ∃ distances, o.mateDistances g state = some distances ∧
    o.matesDist g state = some distances.sum ∧ IntRange (60 * distances.sum) ∧
    IntRange (toSizeT (60 * distances.sum) / o.teammates.length) ∧
    toSizeT (60 * distances.sum) / o.teammates.length
      = 60 * distances.sum / o.teammates.length

variable {o g}

/-- Small distances of at most five teammates. -/
theorem CohesionLaw.of_small {state : State} (hmates : o.teammates.length ≤ 5)
    (h : ∀ mate ∈ o.teammates,
      ∃ v, minDistance g.floydDist state.pos mate.pos = some v ∧ 0 ≤ v ∧ v ≤ 10000) :
    o.CohesionLaw g state := by
  have hprefix : ∀ mates, mates <+: o.teammates → ∃ distances,
      { o with teammates := mates }.mateDistances g state = some distances ∧
        0 ≤ distances.sum ∧ distances.sum ≤ 50000 := by
    intro mates hle
    obtain ⟨distances, hrun, hlen, hall⟩ := exists_mapM _ _ mates fun mate hmate =>
      h mate (hle.subset hmate)
    refine ⟨distances, hrun, List.sum_nonneg fun v hv => (hall v hv).1, ?_⟩
    have hsum := List.sum_le_card_nsmul distances 10000 fun v hv => (hall v hv).2
    have hcount : distances.length ≤ 5 := by
      rw [hlen]
      exact hle.length_le.trans hmates
    rw [nsmul_eq_mul] at hsum
    have : (distances.length : Int) ≤ 5 := by exact_mod_cast hcount
    omega
  refine ⟨fun mates hle => ?_, ?_⟩
  · obtain ⟨distances, hrun, h0, hsum⟩ := hprefix mates hle
    refine ⟨distances.sum, by rw [matesDist_eq, hrun]; rfl, ?_⟩
    unfold IntRange
    omega
  · obtain ⟨distances, hrun, h0, hsum⟩ := hprefix o.teammates (List.prefix_refl _)
    have hsize : toSizeT (60 * distances.sum) = 60 * distances.sum :=
      Int.emod_eq_of_lt (by omega) (by omega)
    have hquot : 0 ≤ 60 * distances.sum / (o.teammates.length : Int) :=
      Int.ediv_nonneg (by omega) (Int.natCast_nonneg _)
    have hquot' : 60 * distances.sum / (o.teammates.length : Int) ≤ 60 * distances.sum :=
      Int.ediv_le_self _ (by omega)
    refine ⟨distances, hrun, by rw [matesDist_eq, hrun]; rfl, ?_, ?_, by rw [hsize]⟩
    · unfold IntRange
      omega
    · rw [hsize]
      unfold IntRange
      omega

/-- **The cohesion term.** On a board of at most 10000 cells, with one to five teammates on free
    cells and a target the loop has accepted, the term is computed as it is meant at every state the
    search explores if and only if every teammate is connected to the trooper's cell. -/
theorem cohesionLaw_iff {rand : ℕ → ℕ} {fuel : ℕ} {turn : Turn} {g₀ g₁ g : Globals}
    {o : SlavaStrategy} (hcon : construct turn.self turn.world turn.game g₀ = some (o, g₁))
    (hfit : CellsFit turn.world.size turn.world.cells)
    (hboard : turn.world.size.sizeX * turn.world.size.sizeY ≤ 10000)
    (hfloyd : floyd turn.world.size turn.world.cells [] = some g₁.floydDist)
    (hloop : targetLoop rand o fuel (o.resetTarget g₁) = some (true, g))
    (hmates : 1 ≤ o.teammates.length ∧ o.teammates.length ≤ 5)
    (hfree : ∀ mate ∈ o.teammates, FreeCell turn.world.size turn.world.cells mate.pos)
    {p : List Step × Node} (hp : p ∈ o.plans g 10 o.root) :
    o.CohesionLaw g p.2.state ↔ ∀ mate ∈ o.teammates,
      (freeGraph turn.world.size turn.world.cells).Reachable turn.self.pos mate.pos := by
  have hx : 0 ≤ turn.world.size.sizeX := by
    have := hfit.columns.1
    omega
  have hcard := length_freePoints_le turn.world.cells hx hfit.sizeY_nonneg
  have hcells : (freePoints turn.world.size turn.world.cells).length ≤ 5 * 10 ^ 8 := by omega
  obtain ⟨ht, hself, htarget, -⟩ := exactTable_of_targetLoop hcon hfit hcells hfloyd hloop
  obtain ⟨w, -⟩ := exists_walk_of_targetLoop hcon hfit hcells hfloyd hloop hp
  -- every explored position has a neighbour, on the way to the target or back
  obtain ⟨r, hadj⟩ : ∃ r, (freeGraph turn.world.size turn.world.cells).Adj p.2.state.pos r := by
    by_cases hpos : p.2.state.pos = g.target
    · rw [hpos]
      exact exists_adj_of_reachable hself.symm htarget.symm
    · exact exists_adj_of_reachable hpos (w.reverse.reachable.trans htarget)
  constructor
  · intro hlaw mate hmate
    by_contra hunreachable
    obtain ⟨distances, hrun, _, hrange, _⟩ := hlaw.term
    -- its distance is the sentinel, and the others do not make up for it
    have hinf : minDistance g.floydDist p.2.state.pos mate.pos = some inf :=
      ht.unconnected _ _ hadj.1.1 (hfree mate hmate).1 fun h => hunreachable (w.reachable.trans h)
    have hmem := mem_of_mapM hrun hmate hinf
    obtain ⟨distances', hrun', _, hnonneg⟩ := exists_mapM _ (fun v => 0 ≤ v) o.teammates
      fun mate' hmate' => ht.exists_nonneg hadj.1.1 (hfree mate' hmate').1
    obtain rfl : distances' = distances := Option.some.inj (hrun'.symm.trans hrun)
    have hle := List.single_le_sum hnonneg inf hmem
    unfold IntRange at hrange
    unfold inf at hle
    omega
  · intro hreach
    refine CohesionLaw.of_small hmates.2 fun mate hmate => ?_
    have hmate' := w.reverse.reachable.trans (hreach mate hmate)
    obtain ⟨v, hv, h0, hle⟩ := ht.exists_le_card hadj hmate'
    exact ⟨v, hv, h0, by omega⟩

end SlavaStrategy

theorem cohesionLaw_iff_two_steps :
    walkingStrategy.CohesionLaw secondGlobals twoSteps.2.state ↔
      ∀ mate ∈ walkingStrategy.teammates,
        (freeGraph walkingTurn.world.size walkingTurn.world.cells).Reachable walkingTurn.self.pos
          mate.pos :=
  SlavaStrategy.cohesionLaw_iff construct_walking cellsFit_walking (by decide) floyd_walking
    targetLoop_walking (by decide) (by unfold FreeCell; decide) twoSteps_mem_plans

/-- A row of nine cells, the last but one of them covered. -/
def splitCells : Cells := List.replicate 7 [.free] ++ [[.lowCover], [.free]]

/-- The first move of a trooper at one end of it, with a teammate at the other. -/
def splitTurn : Turn :=
  ⟨woundedTrooper,
    { corridor [woundedTrooper, { woundedTrooper with x := 8 }] [] with
      width := 9, cells := splitCells, cellVisibilities := List.replicate 243 true },
    medikitGame⟩

/-- The object built for it. -/
def splitStrategy : SlavaStrategy where
  self := splitTurn.self
  world := splitTurn.world
  game := splitTurn.game
  cells := [.lowCover] :: List.replicate 6 [.free] ++ [[.lowCover], [.lowCover]]
  teammates := splitTurn.world.troopers
  enemies := []
  stances := [.prone, .kneeling, .standing]

/-- The globals the constructor leaves, and those of the search if every draw is `6`. -/
def splitGlobals (target : Point) (draws : ℕ) : Globals where
  size := ⟨9, 1⟩
  target := target
  moveIndex := 0
  floydDist := (floyd ⟨9, 1⟩ splitCells []).getD []
  draws := draws

theorem construct_split :
    SlavaStrategy.construct splitTurn.self splitTurn.world splitTurn.game Globals.initial
      = some (splitStrategy, splitGlobals ⟨0, 0⟩ 0) := rfl

theorem cellsFit_split : CellsFit ⟨9, 1⟩ splitCells := ⟨by decide, by decide, by decide⟩

theorem floyd_split : floyd ⟨9, 1⟩ splitCells [] = some (splitGlobals ⟨0, 0⟩ 0).floydDist :=
  floyd_eq_some_getD cellsFit_split (by decide)

theorem targetLoop_split :
    SlavaStrategy.targetLoop (fun _ => 6) splitStrategy 1
        (splitStrategy.resetTarget (splitGlobals ⟨0, 0⟩ 0))
      = some (true, splitGlobals ⟨6, 0⟩ 2) := by decide

/-- The teammate behind the covered cell makes the term leave the range at once. -/
theorem cohesionLaw_fails_split :
    SlavaStrategy.construct splitTurn.self splitTurn.world splitTurn.game Globals.initial
        = some (splitStrategy, splitGlobals ⟨0, 0⟩ 0) ∧
      splitTurn.world.size = ⟨9, 1⟩ ∧ CellsFit splitTurn.world.size splitTurn.world.cells ∧
      floyd splitTurn.world.size splitTurn.world.cells []
        = some (splitGlobals ⟨0, 0⟩ 0).floydDist ∧
      SlavaStrategy.targetLoop (fun _ => 6) splitStrategy 1
          (splitStrategy.resetTarget (splitGlobals ⟨0, 0⟩ 0))
        = some (true, splitGlobals ⟨6, 0⟩ 2) ∧
      splitStrategy.teammates.length = 2 ∧
      (∀ mate ∈ splitStrategy.teammates,
        FreeCell splitTurn.world.size splitTurn.world.cells mate.pos) ∧
      ([], splitStrategy.root)
        ∈ splitStrategy.plans (splitGlobals ⟨6, 0⟩ 2) 10 splitStrategy.root ∧
      ¬ splitStrategy.CohesionLaw (splitGlobals ⟨6, 0⟩ 2) splitStrategy.root.state := by
  have hdistances : splitStrategy.mateDistances (splitGlobals ⟨6, 0⟩ 2) splitStrategy.root.state
      = some [2, inf] := by decide
  refine ⟨construct_split, rfl, cellsFit_split, floyd_split, targetLoop_split, rfl, ?_, ?_,
    fun hlaw => ?_⟩
  · unfold FreeCell
    decide
  · decide
  · obtain ⟨distances, hrun, _, hrange, _⟩ := hlaw.term
    rw [hdistances, Option.some.injEq] at hrun
    subst hrun
    exact absurd hrange (by unfold IntRange inf; decide)

end CodeTroopers
