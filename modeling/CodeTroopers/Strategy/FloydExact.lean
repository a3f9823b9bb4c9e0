import CodeTroopers.Strategy.DistanceTable

set_option autoImplicit false

/-! # Exactness of the distance table

`floyd()` runs `InPlaceFloyd.floydLoop` on the graph of the board's free cells, from the table
that holds `1` between free neighbours and `inf` elsewhere. The library's result about that loop
then says what the table holds between any two distinct board cells. -/

namespace CodeTroopers

open CheckedVector

/-! ## The free cells as a graph -/

/-- A board cell that the map marks `FREE`. -/
def FreeCell (b : BoardSize) (cells : Cells) (p : Point) : Prop :=
  p.isCorrect b = true ∧ cellAt cells p = some .free

/-- The free cells of the board, in the order the loops of `floyd()` meet them. -/
def freePoints (b : BoardSize) (cells : Cells) : List Point :=
  (boardPoints b).filter fun p => cellAt cells p = some .free

/-- The graph of the free cells: edges are 4-neighbour steps between free cells. -/
def freeGraph (b : BoardSize) (cells : Cells) : SimpleGraph Point where
  Adj p q := FreeCell b cells p ∧ FreeCell b cells q ∧ |p.x - q.x| + |p.y - q.y| = 1
  symm := ⟨fun p q ⟨hp, hq, h⟩ =>
    ⟨hq, hp, by rw [abs_sub_comm q.x, abs_sub_comm q.y]; exact h⟩⟩
  loopless := ⟨by simp⟩

theorem mem_boardPoints_iff (b : BoardSize) (p : Point) :
    p ∈ boardPoints b ↔ p.isCorrect b = true := by
  rw [Point.isCorrect_iff]
  simp only [boardPoints, List.mem_flatMap, List.mem_map, List.mem_range]
  constructor
  · intro h
    obtain ⟨x, hx, y, hy, rfl⟩ := h
    dsimp only
    omega
  · intro h
    refine ⟨p.x.toNat, by omega, p.y.toNat, by omega, ?_⟩
    obtain ⟨x, y⟩ := p
    simp only [Point.mk.injEq] at h ⊢
    omega

theorem mem_freePoints_iff (b : BoardSize) (cells : Cells) (p : Point) :
    p ∈ freePoints b cells ↔ FreeCell b cells p := by
  simp [freePoints, FreeCell, mem_boardPoints_iff]

theorem freeGraph_adj_iff (b : BoardSize) (cells : Cells) (p q : Point) :
    (freeGraph b cells).Adj p q
      ↔ p ∈ freePoints b cells ∧ q ∈ p.neighs b ∧ cellAt cells q = some .free := by
  rw [mem_freePoints_iff]
  constructor
  · intro h
    obtain ⟨hp, hq, h⟩ := h
    refine ⟨hp, ?_, hq.2⟩
    rw [Point.mem_neighs_iff_hasNeigh b p q hp.1, Point.hasNeigh_iff]
    exact ⟨hq.1, h⟩
  · intro h
    obtain ⟨hp, hq, hfree⟩ := h
    rw [Point.mem_neighs_iff_hasNeigh b p q hp.1, Point.hasNeigh_iff] at hq
    exact ⟨hp, ⟨hq.1, hfree⟩, hq.2⟩

/-! ## The loops of `floyd()` over functions -/

section Loops

variable {b : BoardSize} {cells : Cells} (hfit : CellsFit b cells)

include hfit

theorem collectFreePoints_eq : collectFreePoints b cells = some (freePoints b cells) := by
  have hloop : ∀ (l acc : List Point), (∀ p ∈ l, p.isCorrect b = true) →
      l.foldlM (collectStep cells) acc
        = some (acc ++ l.filter fun p => cellAt cells p = some .free) := by
    intro l
    induction l with
    | nil => simp
    | cons p l ih =>
        intro acc hl
        obtain ⟨c, hc⟩ := hfit.exists_cellAt (hl p (List.mem_cons_self ..))
        have hrest : ∀ q ∈ l, q.isCorrect b = true := fun q hq => hl q (List.mem_cons_of_mem p hq)
        rw [List.foldlM_cons]
        by_cases hfree : c = .free <;> simp [collectStep, hc, hfree, ih _ hrest]
  exact hloop (boardPoints b) [] fun p hp => (mem_boardPoints_iff b p).mp hp

/-- The unchecked step of `connectNeighs`. -/
private def connect (cells : Cells) (p : Point) (d : Point → Point → Int) (n : Point) :
    Point → Point → Int :=
  if cellAt cells n = some .free then InPlaceFloyd.update d p n 1 else d

omit hfit in
private theorem foldl_connect (p : Point) (l : List Point) (d : Point → Point → Int)
    (a c : Point) :
    l.foldl (connect cells p) d a c
      = if a = p ∧ c ∈ l ∧ cellAt cells c = some .free then 1 else d a c := by
  induction l generalizing d with
  | nil => simp
  | cons n l ih =>
      rw [List.foldl_cons, ih]
      unfold connect InPlaceFloyd.update
      by_cases hap : a = p
      · by_cases hcn : c = n
        · subst hcn
          by_cases hfree : cellAt cells c = some .free <;> simp [hap, hfree]
        · by_cases hfree : cellAt cells n = some .free <;> simp [hap, hcn, hfree]
      · by_cases hfree : cellAt cells n = some .free <;> simp [hap, hfree]

omit hfit in
private theorem foldl_foldl_connect (l : List Point) (d : Point → Point → Int) (a c : Point) :
    l.foldl (fun d p => (p.neighs b).foldl (connect cells p) d) d a c
      = if a ∈ l ∧ c ∈ a.neighs b ∧ cellAt cells c = some .free then 1 else d a c := by
  induction l generalizing d with
  | nil => simp
  | cons p l ih =>
      rw [List.foldl_cons, ih, foldl_connect]
      by_cases hap : a = p
      · subst hap
        by_cases hc : c ∈ a.neighs b ∧ cellAt cells c = some .free <;> simp [hc]
      · simp [hap]

/-- The initialisation of `floyd()` builds the initial table of the free graph. -/
theorem exists_connectNeighs {t : DistanceTable} (ht : Represents b t fun _ _ => inf) :
    ∃ t' d, connectNeighs b cells (freePoints b cells) t = some t' ∧ Represents b t' d ∧
      InPlaceFloyd.IsInitial inf (freeGraph b cells) d := by
  have hcell : ∀ p, p.isCorrect b = true → ∀ n ∈ p.neighs b, ∀ t d, Represents b t d →
      ∃ t', connectStep cells p t n = some t' ∧ Represents b t' (connect cells p d n) := by
    intro p hp n hn t d hrep
    have hn' : n.isCorrect b = true :=
      ((Point.hasNeigh_iff b p n).mp ((Point.mem_neighs_iff_hasNeigh b p n hp).mp hn)).1
    obtain ⟨c, hc⟩ := hfit.exists_cellAt hn'
    by_cases hfree : c = .free
    · obtain ⟨t', hset, hrep'⟩ := hrep.set hp hn' 1
      exact ⟨t', by simp [connectStep, hc, hfree, hset], by simpa [connect, hc, hfree] using hrep'⟩
    · exact ⟨t, by simp [connectStep, hc, hfree], by simpa [connect, hc, hfree] using hrep⟩
  have hrow : ∀ p ∈ freePoints b cells, ∀ t d, Represents b t d →
      ∃ t', (p.neighs b).foldlM (connectStep cells p) t = some t' ∧
        Represents b t' ((p.neighs b).foldl (connect cells p) d) := fun p hp =>
    foldlM_simulates _ _ _ _ (hcell p ((mem_freePoints_iff b cells p).mp hp).1)
  obtain ⟨t', hrun, hrep⟩ := foldlM_simulates _ _ _ _ hrow t _ ht
  refine ⟨t', _, hrun, hrep, fun p q => ?_⟩
  rw [foldl_foldl_connect, freeGraph_adj_iff]
  exact ⟨fun h => if_pos h, fun h => if_neg h⟩

omit hfit in
/-- The innermost body of `floyd()` is `InPlaceFloyd.relaxCell`. -/
theorem exists_relaxPoint {k i j : Point} (hk : k.isCorrect b = true) (hi : i.isCorrect b = true)
    (hj : j.isCorrect b = true) {t : DistanceTable} {d : Point → Point → Int}
    (hrep : Represents b t d) :
    ∃ t', relaxPoint k i t j = some t' ∧
      Represents b t' (InPlaceFloyd.relaxCell inf k i d j) := by
  have hkj := hrep.reads k j hk hj
  -- both loops skip on the sentinel
  by_cases hinf : d k j = inf
  · exact ⟨t, by simp [relaxPoint, hkj, hinf], by simpa [InPlaceFloyd.relaxCell, hinf] using hrep⟩
  · obtain ⟨t', hset, hrep'⟩ := hrep.set hi hj (min (d i j) (d i k + d k j))
    refine ⟨t', ?_, by simpa [InPlaceFloyd.relaxCell, hinf] using hrep'⟩
    simp [relaxPoint, hkj, hinf, hrep.reads i j hi hj, hrep.reads i k hi hk, hset]

omit hfit in
/-- The triple loop of `floyd()` is `InPlaceFloyd.floydLoop`. -/
theorem exists_relaxAll {l : List Point} (hl : ∀ p ∈ l, p.isCorrect b = true)
    {t : DistanceTable} {d : Point → Point → Int} (ht : Represents b t d) :
    ∃ t', relaxAll l t = some t' ∧ Represents b t' (InPlaceFloyd.floydLoop inf l d) := by
  have hcell : ∀ k ∈ l, ∀ i ∈ l, ∀ j ∈ l, ∀ t d, Represents b t d →
      ∃ t', relaxPoint k i t j = some t' ∧
        Represents b t' (InPlaceFloyd.relaxCell inf k i d j) := by
    intro k hk i hi j hj t d hrep
    exact exists_relaxPoint (hl k hk) (hl i hi) (hl j hj) hrep
  have hrow : ∀ k ∈ l, ∀ i ∈ l, ∀ t d, Represents b t d →
      ∃ t', relaxFrom l k t i = some t' ∧ Represents b t' (InPlaceFloyd.relaxRow inf l k d i) := by
    intro k hk i hi t d hrep
    have hik := hrep.reads i k (hl i hi) (hl k hk)
    by_cases hinf : d i k = inf
    · exact ⟨t, by simp [relaxFrom, hik, hinf], by simpa [InPlaceFloyd.relaxRow, hinf] using hrep⟩
    · obtain ⟨t', hrun, hrep'⟩ := foldlM_simulates _ _ _ _ (hcell k hk i hi) t d hrep
      exact ⟨t', by simp [relaxFrom, hik, hinf, hrun],
        by simpa [InPlaceFloyd.relaxRow, hinf] using hrep'⟩
  exact foldlM_simulates _ _ _ _
    (fun k hk => foldlM_simulates _ _ _ _ (hrow k hk)) t d ht

/-- `floyd()` is the library's loop on the free graph. -/
theorem exists_floyd : ∃ t d, floyd b cells [] = some t ∧
    Represents b t (InPlaceFloyd.floydLoop inf (freePoints b cells) d) ∧
      InPlaceFloyd.IsInitial inf (freeGraph b cells) d := by
  have hx : 0 ≤ b.sizeX := by
    have := hfit.columns.1
    omega
  obtain ⟨t₀, hresize, hrep₀⟩ := exists_resizeTable hx hfit.sizeY_nonneg
  obtain ⟨t₁, d, hconnect, hrep₁, hinit⟩ := exists_connectNeighs hfit hrep₀
  obtain ⟨t, hrelax, hrep⟩ := exists_relaxAll
    (fun p hp => ((mem_freePoints_iff b cells p).mp hp).1) hrep₁
  refine ⟨t, d, ?_, hrep, hinit⟩
  simp [floyd, collectFreePoints_eq hfit, hresize, hconnect, hrelax]

end Loops

/-! ## What the table holds -/

/-- The table holds the distances between free cells, apart from its diagonal. -/
structure ExactTable (b : BoardSize) (cells : Cells) (t : DistanceTable) : Prop where
  fits : TableFits b t
  /-- Connected cells hold their distance... -/
  connected : ∀ p q, p ≠ q → (freeGraph b cells).Reachable p q →
    minDistance t p q = some ((freeGraph b cells).dist p q : Int)
  /-- ...which is below the sentinel... -/
  dist_lt : ∀ p q, p ≠ q → (freeGraph b cells).Reachable p q →
    ((freeGraph b cells).dist p q : Int) < inf
  /-- ...that unconnected ones hold. -/
  unconnected : ∀ p q, p.isCorrect b = true → q.isCorrect b = true →
    ¬ (freeGraph b cells).Reachable p q → minDistance t p q = some inf
  /-- A cell with a free neighbour holds the way there and back... -/
  diagonal : ∀ p q, (freeGraph b cells).Adj p q → minDistance t p p = some 2
  /-- ...and one without the sentinel. -/
  isolated : ∀ p, p.isCorrect b = true → (∀ q, ¬ (freeGraph b cells).Adj p q) →
    minDistance t p p = some inf

theorem freeCell_of_reachable {b : BoardSize} {cells : Cells} {p q : Point} (hpq : p ≠ q)
    (hr : (freeGraph b cells).Reachable p q) : FreeCell b cells p ∧ FreeCell b cells q := by
  obtain ⟨w⟩ := hr
  obtain ⟨hp, hq⟩ := InPlaceFloyd.mem_of_walk
    (fun p q h => ((freeGraph_adj_iff b cells p q).mp h).1) hpq w
  exact ⟨(mem_freePoints_iff b cells p).mp hp, (mem_freePoints_iff b cells q).mp hq⟩

/-- `floyd()` is defined on every board of matching dimensions and computes the distances. -/
theorem exists_exactTable {b : BoardSize} {cells : Cells} (hfit : CellsFit b cells)
    (hfree : (freePoints b cells).length ≤ 5 * 10 ^ 8) :
    ∃ t, floyd b cells [] = some t ∧ ExactTable b cells t := by
  obtain ⟨t, d, hrun, hrep, hinit⟩ := exists_floyd hfit
  have hvs : ∀ p q, (freeGraph b cells).Adj p q → p ∈ freePoints b cells := fun p q h =>
    ((freeGraph_adj_iff b cells p q).mp h).1
  have hinf : ((freePoints b cells).length : Int) < inf := by
    unfold inf
    omega
  have hboard : ∀ p, FreeCell b cells p → p.isCorrect b = true := fun p hp => hp.1
  refine ⟨t, hrun, hrep.fits, ?_, ?_, ?_, ?_, ?_⟩
  · intro p q hpq hr
    obtain ⟨hp, hq⟩ := freeCell_of_reachable hpq hr
    rw [hrep.reads p q (hboard p hp) (hboard q hq),
      InPlaceFloyd.floydLoop_eq_dist hinit hinf hvs hpq hr]
  · intro p q _ hr
    obtain ⟨w, hw, hlen⟩ := hr.exists_path_of_dist
    rw [← hlen]
    exact InPlaceFloyd.pathsBelow hvs hinf p q w hw
  · intro p q hp hq hr
    rw [hrep.reads p q hp hq, InPlaceFloyd.floydLoop_eq_inf hinit hinf hr]
  · intro p q hpq
    rw [hrep.reads p p (hboard p hpq.1) (hboard p hpq.1),
      InPlaceFloyd.floydLoop_self_eq_two hinit hinf hvs hpq]
  · intro p hp hisolated
    rw [hrep.reads p p hp hp, InPlaceFloyd.floydLoop_self_eq_inf hinit hinf hisolated]

/-- The table the process has computed is exact. -/
theorem ExactTable.of_floyd {b : BoardSize} {cells : Cells} {t : DistanceTable}
    (hfit : CellsFit b cells) (hfree : (freePoints b cells).length ≤ 5 * 10 ^ 8)
    (h : floyd b cells [] = some t) : ExactTable b cells t := by
  obtain ⟨t', hrun, ht'⟩ := exists_exactTable hfit hfree
  rw [h, Option.some.injEq] at hrun
  exact hrun ▸ ht'

theorem floyd_eq_some_getD {b : BoardSize} {cells : Cells} (hfit : CellsFit b cells)
    (hfree : (freePoints b cells).length ≤ 5 * 10 ^ 8) :
    floyd b cells [] = some ((floyd b cells []).getD []) := by
  obtain ⟨t, hrun, _⟩ := exists_exactTable hfit hfree
  rw [hrun, Option.getD_some]

/-- **The distance table is exact off the diagonal.** After `floyd()`, two distinct board cells
    hold the length of a shortest path of 4-neighbour steps through free cells if such a path
    exists, and exactly `inf` otherwise. -/
theorem floyd_exact (b : BoardSize) (cells : Cells) (hfit : CellsFit b cells)
    (hfree : (freePoints b cells).length ≤ 5 * 10 ^ 8) :
    ∃ t, floyd b cells [] = some t ∧
      ∀ p q : Point, p.isCorrect b = true → q.isCorrect b = true → p ≠ q →
        (FreeCell b cells p ∧ FreeCell b cells q ∧ (freeGraph b cells).Reachable p q →
          minDistance t p q = some ((freeGraph b cells).dist p q : Int)) ∧
        (¬ (FreeCell b cells p ∧ FreeCell b cells q ∧ (freeGraph b cells).Reachable p q) →
          minDistance t p q = some inf) := by
  obtain ⟨t, hrun, ht⟩ := exists_exactTable hfit hfree
  refine ⟨t, hrun, fun p q hp hq hpq => ⟨fun h => ht.connected p q hpq h.2.2, fun hnot => ?_⟩⟩
  refine ht.unconnected p q hp hq fun hr => ?_
  obtain ⟨hp', hq'⟩ := freeCell_of_reachable hpq hr
  exact hnot ⟨hp', hq', hr⟩

/-- A board of three columns with one covered cell. -/
def coveredCells : Cells := [[.free, .free], [.lowCover, .free], [.free, .free]]

theorem floyd_exact_covered :
    ∃ t, floyd ⟨3, 2⟩ coveredCells [] = some t ∧
      ∀ p q : Point, p.isCorrect ⟨3, 2⟩ = true → q.isCorrect ⟨3, 2⟩ = true → p ≠ q →
        (FreeCell ⟨3, 2⟩ coveredCells p ∧ FreeCell ⟨3, 2⟩ coveredCells q ∧
            (freeGraph ⟨3, 2⟩ coveredCells).Reachable p q →
          minDistance t p q = some ((freeGraph ⟨3, 2⟩ coveredCells).dist p q : Int)) ∧
        (¬ (FreeCell ⟨3, 2⟩ coveredCells p ∧ FreeCell ⟨3, 2⟩ coveredCells q ∧
            (freeGraph ⟨3, 2⟩ coveredCells).Reachable p q) →
          minDistance t p q = some inf) :=
  floyd_exact ⟨3, 2⟩ coveredCells ⟨by decide, by decide, by decide⟩ (by decide)

end CodeTroopers
