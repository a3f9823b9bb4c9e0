import CodeTroopers.Strategy.FloydExact

set_option autoImplicit false

/-! # The distance table as a metric

An entry of the table is the least length of a walk with at least one step, or the sentinel if there
is none (`exists_walk`, `exists_le_length`). Walks can be turned around and joined, so the table is
symmetric and satisfies the triangle inequality. A step away from a cell and back is a walk, and the
empty walk is not, so the distance of a cell to itself is never zero. -/

namespace CodeTroopers

section Walks

variable {b : BoardSize} {cells : Cells} {t : DistanceTable} (ht : ExactTable b cells t)
  {p q : Point}

include ht

theorem ExactTable.exists_walk {v : Int} (hread : minDistance t p q = some v) (hne : v ≠ inf) :
    ∃ w : (freeGraph b cells).Walk p q, 0 < w.length ∧ v = w.length := by
  obtain ⟨hp, hq⟩ := ht.fits.isCorrect_of_minDistance hread
  by_cases hpq : p = q
  · subst hpq
    by_cases hadj : ∃ r, (freeGraph b cells).Adj p r
    · obtain ⟨r, hr⟩ := hadj
      rw [ht.diagonal p r hr, Option.some.injEq] at hread
      exact ⟨.cons hr (.cons hr.symm .nil), by simp, by simp [← hread]⟩
    · rw [ht.isolated p hp fun r hr => hadj ⟨r, hr⟩, Option.some.injEq] at hread
      exact absurd hread.symm hne
  · by_cases hr : (freeGraph b cells).Reachable p q
    · rw [ht.connected p q hpq hr, Option.some.injEq] at hread
      obtain ⟨w, hw⟩ := hr.exists_walk_length_eq_dist
      have hpos : w.length ≠ 0 := fun h0 => hpq (SimpleGraph.Walk.eq_of_length_eq_zero h0)
      exact ⟨w, by omega, by rw [hw, hread]⟩
    · rw [ht.unconnected p q hp hq hr, Option.some.injEq] at hread
      exact absurd hread.symm hne

/-- No walk with at least one step is shorter than the entry, which is then finite. -/
theorem ExactTable.exists_le_length (w : (freeGraph b cells).Walk p q) (hw : 0 < w.length) :
    ∃ v, minDistance t p q = some v ∧ v ≤ w.length ∧ v < inf := by
  by_cases hpq : p = q
  · subst hpq
    cases w with
    | nil => simp at hw
    | cons hadj w' =>
        refine ⟨2, ht.diagonal p _ hadj, ?_, by decide⟩
        cases w' with
        | nil => exact absurd hadj ((freeGraph b cells).loopless.irrefl p)
        | cons _ w'' =>
            simp only [SimpleGraph.Walk.length_cons]
            omega
  · refine ⟨_, ht.connected p q hpq ⟨w⟩, ?_, ht.dist_lt p q hpq ⟨w⟩⟩
    exact_mod_cast (freeGraph b cells).dist_le w

/-- Every entry of the board can be read, and none exceeds the sentinel. -/
theorem ExactTable.exists_le_inf (hp : p.isCorrect b = true) (hq : q.isCorrect b = true) :
    ∃ v, minDistance t p q = some v ∧ v ≤ inf := by
  obtain ⟨_, _, _, v, hplane, hgrid, hrow, hv, _⟩ := ht.fits.exists_path hp hq
  have hread : minDistance t p q = some v := by simp [minDistance, hplane, hgrid, hrow, hv]
  refine ⟨v, hread, ?_⟩
  by_cases hinf : v = inf
  · exact hinf.le
  · obtain ⟨w, hw, _⟩ := ht.exists_walk hread hinf
    obtain ⟨v', hread', _, hlt⟩ := ht.exists_le_length w hw
    rw [hread, Option.some.injEq] at hread'
    omega

theorem ExactTable.minDistance_ne_zero : minDistance t p q ≠ some 0 := by
  intro hread
  obtain ⟨w, hw, h0⟩ := ht.exists_walk hread (by decide)
  omega

theorem ExactTable.le_of_swap {u v : Int} (hpq : minDistance t p q = some u)
    (hqp : minDistance t q p = some v) : u ≤ v := by
  by_cases hv : v = inf
  · obtain ⟨hp, hq⟩ := ht.fits.isCorrect_of_minDistance hpq
    obtain ⟨u', hread, hle⟩ := ht.exists_le_inf hp hq
    rw [hpq, Option.some.injEq] at hread
    omega
  · obtain ⟨w, hw, rfl⟩ := ht.exists_walk hqp hv
    have hpos : 0 < w.reverse.length := by rwa [SimpleGraph.Walk.length_reverse]
    obtain ⟨u', hread, hle, _⟩ := ht.exists_le_length w.reverse hpos
    rw [hpq, Option.some.injEq] at hread
    rw [SimpleGraph.Walk.length_reverse] at hle
    omega

theorem ExactTable.minDistance_comm (hp : p.isCorrect b = true) (hq : q.isCorrect b = true) :
    minDistance t p q = minDistance t q p := by
  obtain ⟨u, hu, _⟩ := ht.exists_le_inf hp hq
  obtain ⟨v, hv, _⟩ := ht.exists_le_inf hq hp
  rw [hu, hv, le_antisymm (ht.le_of_swap hu hv) (ht.le_of_swap hv hu)]

theorem ExactTable.le_add {r : Point} {pq pr rq : Int} (hpq : minDistance t p q = some pq)
    (hpr : minDistance t p r = some pr) (hrq : minDistance t r q = some rq) (hne : pr ≠ inf)
    (hne' : rq ≠ inf) : pq ≤ pr + rq := by
  obtain ⟨w₁, hw₁, rfl⟩ := ht.exists_walk hpr hne
  obtain ⟨w₂, _, rfl⟩ := ht.exists_walk hrq hne'
  have hlen : (w₁.append w₂).length = w₁.length + w₂.length := SimpleGraph.Walk.length_append ..
  obtain ⟨v, hread, hle, _⟩ := ht.exists_le_length (w₁.append w₂) (by omega)
  rw [hpq, Option.some.injEq] at hread
  omega

end Walks

/-! ## The laws of a metric -/

/-- The distance is symmetric, and the way over `r` is no shorter than the distance. -/
def Pseudometric (t : DistanceTable) (p q r : Point) : Prop :=
  ∃ pq pr rq, minDistance t p q = some pq ∧ minDistance t q p = some pq ∧
    minDistance t p r = some pr ∧ minDistance t r q = some rq ∧
    (pr ≠ inf → rq ≠ inf → pq ≤ pr + rq)

/-- Besides, only the distance of a cell to itself is zero. -/
def MetricLaw (t : DistanceTable) (p q r : Point) : Prop :=
  Pseudometric t p q r ∧ (minDistance t p q = some 0 ↔ p = q)

/-- **How far the table is a metric.** After `floyd()` the distances of free cells are symmetric and
    satisfy the triangle inequality; all laws of a metric hold for two cells if and only if they are
    distinct. -/
theorem metricLaw_iff (b : BoardSize) (cells : Cells) (hfit : CellsFit b cells)
    (hfree : (freePoints b cells).length ≤ 5 * 10 ^ 8) :
    ∃ t, floyd b cells [] = some t ∧ ∀ p q r, FreeCell b cells p → FreeCell b cells q →
      FreeCell b cells r → Pseudometric t p q r ∧ (MetricLaw t p q r ↔ p ≠ q) := by
  obtain ⟨t, hrun, ht⟩ := exists_exactTable hfit hfree
  refine ⟨t, hrun, fun p q r hp hq hr => ?_⟩
  obtain ⟨pq, hpq, _⟩ := ht.exists_le_inf hp.1 hq.1
  obtain ⟨pr, hpr, _⟩ := ht.exists_le_inf hp.1 hr.1
  obtain ⟨rq, hrq, _⟩ := ht.exists_le_inf hr.1 hq.1
  have hpseudo : Pseudometric t p q r :=
    ⟨pq, pr, rq, hpq, (ht.minDistance_comm hq.1 hp.1).trans hpq, hpr, hrq, ht.le_add hpq hpr hrq⟩
  refine ⟨hpseudo, ?_⟩
  constructor
  · intro hlaw heq
    exact ht.minDistance_ne_zero (hlaw.2.mpr heq)
  · intro hne
    exact ⟨hpseudo, iff_of_false ht.minDistance_ne_zero hne⟩

theorem metricLaw_iff_covered :
    ∃ t, floyd ⟨3, 2⟩ coveredCells [] = some t ∧ ∀ p q r, FreeCell ⟨3, 2⟩ coveredCells p →
      FreeCell ⟨3, 2⟩ coveredCells q → FreeCell ⟨3, 2⟩ coveredCells r →
        Pseudometric t p q r ∧ (MetricLaw t p q r ↔ p ≠ q) :=
  metricLaw_iff ⟨3, 2⟩ coveredCells ⟨by decide, by decide, by decide⟩ (by decide)

/-- In the corner of this board a cell is two steps away from itself. -/
theorem metricLaw_fails_corner :
    ∃ t, floyd ⟨3, 2⟩ coveredCells [] = some t ∧ FreeCell ⟨3, 2⟩ coveredCells ⟨0, 0⟩ ∧
      minDistance t ⟨0, 0⟩ ⟨0, 0⟩ = some 2 ∧ ¬ MetricLaw t ⟨0, 0⟩ ⟨0, 0⟩ ⟨0, 0⟩ := by
  obtain ⟨t, hrun, ht⟩ := @exists_exactTable ⟨3, 2⟩ coveredCells
    ⟨by decide, by decide, by decide⟩ (by decide)
  have hfree : FreeCell ⟨3, 2⟩ coveredCells ⟨0, 0⟩ := ⟨by decide, by decide⟩
  have hadj : (freeGraph ⟨3, 2⟩ coveredCells).Adj ⟨0, 0⟩ ⟨0, 1⟩ :=
    ⟨hfree, ⟨by decide, by decide⟩, by decide⟩
  refine ⟨t, hrun, hfree, ht.diagonal _ _ hadj, fun hlaw => ?_⟩
  exact ht.minDistance_ne_zero (hlaw.2.mpr rfl)

end CodeTroopers
