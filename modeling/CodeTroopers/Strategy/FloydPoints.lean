import CodeTroopers.Library.FloydPoints
import CodeTroopers.Strategy.FloydExact

set_option autoImplicit false

/-! # The distance table while `floyd()` runs

`floydPoints` is `floyd()` noting the table at every point of its innermost loop, before the body
runs there; `floydPoints_fst` says that it is the same function otherwise. `floyd_points` is the law
of all these tables and of the sums the loop computes. -/

namespace CodeTroopers

open CheckedVector InPlaceFloyd

/-! ## The loop with its points -/

/-- A table, and the points passed with the tables at them, the latest first. -/
abbrev TablePoints := DistanceTable × List (Visit Point DistanceTable)

/-- `relaxPoint`, noting the point. -/
def notedPoint (k i : Point) (s : TablePoints) (j : Point) : Option TablePoints := do
  let t ← relaxPoint k i s.1 j
  some (t, ⟨k, i, j, s.1⟩ :: s.2)

/-- `relaxFrom`, noting its points. -/
def notedFrom (freePoints : List Point) (k : Point) (s : TablePoints) (i : Point) :
    Option TablePoints := do
  let ik ← minDistance s.1 i k
  if ik = inf then some s else freePoints.foldlM (notedPoint k i) s

/-- `relaxAll`, noting its points. -/
def notedAll (freePoints : List Point) (s : TablePoints) : Option TablePoints :=
  freePoints.foldlM (fun s k => freePoints.foldlM (notedFrom freePoints k) s) s

/-- `floyd()`, noting its points. -/
def floydPoints (b : BoardSize) (cells : Cells) (floydDist : DistanceTable) :
    Option TablePoints := do
  let freePoints ← collectFreePoints b cells
  let t ← resizeTable b floydDist
  let t ← connectNeighs b cells freePoints t
  notedAll freePoints (t, [])

theorem notedFrom_fst (freePoints : List Point) (k : Point) (s : TablePoints) (i : Point) :
    (notedFrom freePoints k s i).map Prod.fst = relaxFrom freePoints k s.1 i := by
  unfold notedFrom relaxFrom
  cases minDistance s.1 i k with
  | none => rfl
  | some ik =>
      simp only [Option.bind_eq_bind, Option.bind_some]
      split_ifs
      · rfl
      · refine map_foldlM Prod.fst _ _ (fun s j => ?_) freePoints s
        unfold notedPoint
        cases relaxPoint k i s.1 j <;> rfl

theorem notedAll_fst (freePoints : List Point) (s : TablePoints) :
    (notedAll freePoints s).map Prod.fst = relaxAll freePoints s.1 :=
  map_foldlM Prod.fst _ _
    (fun s k => map_foldlM Prod.fst _ _ (notedFrom_fst freePoints k) freePoints s) freePoints s

/-- Noting the points changes nothing. -/
theorem floydPoints_fst (b : BoardSize) (cells : Cells) (floydDist : DistanceTable) :
    (floydPoints b cells floydDist).map Prod.fst = floyd b cells floydDist := by
  unfold floydPoints floyd
  cases collectFreePoints b cells with
  | none => rfl
  | some freePoints =>
      cases resizeTable b floydDist with
      | none => rfl
      | some t =>
          simp only [Option.bind_eq_bind, Option.bind_some]
          cases connectNeighs b cells freePoints t with
          | none => rfl
          | some t => exact notedAll_fst freePoints (t, [])

/-! ## It is the library's loop -/

/-- No entry of the later table is larger. -/
def NoLarger (b : BoardSize) (later earlier : DistanceTable) : Prop :=
  ∀ p q, p.isCorrect b = true → q.isCorrect b = true →
    ∃ u v, minDistance later p q = some u ∧ minDistance earlier p q = some v ∧ u ≤ v

theorem NoLarger.trans {b : BoardSize} {t₁ t₂ t₃ : DistanceTable} (h : NoLarger b t₁ t₂)
    (h' : NoLarger b t₂ t₃) : NoLarger b t₁ t₃ := by
  intro p q hp hq
  obtain ⟨u, v, hu, hv, hle⟩ := h p q hp hq
  obtain ⟨v', w, hv', hw, hle'⟩ := h' p q hp hq
  rw [hv, Option.some.injEq] at hv'
  exact ⟨u, w, hu, hw, hle.trans (hv'.trans_le hle')⟩

/-- The points of both loops are the same, with the same tables, and these only decrease. -/
structure SamePoints (b : BoardSize) (s : TablePoints) (s' : Trace Point) : Prop where
  table : Represents b s.1 s'.1
  visits : ∀ v ∈ s.2, ∃ v' ∈ s'.2, v.k = v'.k ∧ v.i = v'.i ∧ v.j = v'.j ∧
    (v.k.isCorrect b = true ∧ v.i.isCorrect b = true ∧ v.j.isCorrect b = true) ∧
    Represents b v.table v'.table
  descending : (tables s).Pairwise (NoLarger b)

section Simulation

variable {b : BoardSize} {l : List Point} (hl : ∀ p ∈ l, p.isCorrect b = true)

include hl

theorem SamePoints.notedPoint {k i j : Point} (hk : k ∈ l) (hi : i ∈ l) (hj : j ∈ l)
    {s : TablePoints} {s' : Trace Point} (h : SamePoints b s s') :
    ∃ r, notedPoint k i s j = some r ∧ SamePoints b r (tracedCell inf k i s' j) := by
  obtain ⟨t, hrun, hrep⟩ := exists_relaxPoint (hl k hk) (hl i hi) (hl j hj) h.table
  refine ⟨(t, ⟨k, i, j, s.1⟩ :: s.2), by simp [CodeTroopers.notedPoint, hrun], hrep, ?_, ?_⟩
  · refine List.forall_mem_cons.mpr ⟨⟨_, List.mem_cons_self, rfl, rfl, rfl,
      ⟨hl k hk, hl i hi, hl j hj⟩, h.table⟩, fun v hv => ?_⟩
    obtain ⟨v', hv', hsame⟩ := h.visits v hv
    exact ⟨v', List.mem_cons_of_mem _ hv', hsame⟩
  · have hle : NoLarger b t s.1 := fun p q hp hq =>
      ⟨_, _, hrep.reads p q hp hq, h.table.reads p q hp hq, relaxCell_le inf k i j s'.1 p q⟩
    obtain ⟨hfirst, _⟩ := List.pairwise_cons.mp h.descending
    exact List.pairwise_cons.mpr
      ⟨List.forall_mem_cons.mpr ⟨hle, fun t' ht' => hle.trans (hfirst t' ht')⟩, h.descending⟩

theorem SamePoints.notedFrom {k i : Point} (hk : k ∈ l) (hi : i ∈ l) {s : TablePoints}
    {s' : Trace Point} (h : SamePoints b s s') :
    ∃ r, notedFrom l k s i = some r ∧ SamePoints b r (tracedRow inf l k s' i) := by
  have hik := h.table.reads i k (hl i hi) (hl k hk)
  by_cases hinf : s'.1 i k = inf
  · exact ⟨s, by simp [CodeTroopers.notedFrom, hik, hinf], by simpa [tracedRow, hinf] using h⟩
  · obtain ⟨r, hrun, hr⟩ := foldlM_simulates (SamePoints b) _ (tracedCell inf k i) l
      (fun j hj s s' h => h.notedPoint hl hk hi hj) s s' h
    exact ⟨r, by simp [CodeTroopers.notedFrom, hik, hinf, hrun],
      by simpa [tracedRow, hinf] using hr⟩

theorem SamePoints.notedAll {s : TablePoints} {s' : Trace Point} (h : SamePoints b s s') :
    ∃ r, notedAll l s = some r ∧ SamePoints b r (tracedLoop inf l s') :=
  foldlM_simulates (SamePoints b) _ _ l (fun _ hk => foldlM_simulates (SamePoints b) _ _ l
    fun _ hi _ _ h => h.notedFrom hl hk hi) s s' h

end Simulation

theorem exists_floydPoints {b : BoardSize} {cells : Cells} (hfit : CellsFit b cells) :
    ∃ s d, floydPoints b cells [] = some s ∧
      SamePoints b s (tracedLoop inf (freePoints b cells) (d, [])) ∧
      IsInitial inf (freeGraph b cells) d := by
  have hx : 0 ≤ b.sizeX := by
    have := hfit.columns.1
    omega
  obtain ⟨t₀, hresize, hrep₀⟩ := exists_resizeTable hx hfit.sizeY_nonneg
  obtain ⟨t₁, d, hconnect, hrep₁, hinit⟩ := exists_connectNeighs hfit hrep₀
  have hsame : SamePoints b (t₁, []) (d, []) := ⟨hrep₁, by simp, List.pairwise_singleton ..⟩
  obtain ⟨s, hrun, hs⟩ :=
    hsame.notedAll fun p hp => ((mem_freePoints_iff b cells p).mp hp).1
  refine ⟨s, d, ?_, hs, hinit⟩
  simp [floydPoints, collectFreePoints_eq hfit, hresize, hconnect, hrun]

/-! ## The law of the loop -/

/-- The number fits into an `int`. -/
def IntRange (x : Int) : Prop := -2 ^ 31 ≤ x ∧ x < 2 ^ 31

/-- An entry of the table is the sentinel, or it is below the sentinel, the length of a walk of at
    least one step, and bounded in the number `n` of free cells. -/
def EntryLaw (b : BoardSize) (cells : Cells) (n : ℕ) (p q : Point) (v : Int) : Prop :=
  v = inf ∨ (v < inf ∧ (∃ w : (freeGraph b cells).Walk p q, 1 ≤ w.length ∧ v = w.length) ∧
    (p ≠ q → v ≤ (n : Int) - 1) ∧ (p = q → v ≤ 2 * ((n : Int) - 1)))

/-- All entries of the table are as they should be. -/
def EntriesLaw (b : BoardSize) (cells : Cells) (t : DistanceTable) : Prop :=
  ∀ p q, p.isCorrect b = true → q.isCorrect b = true →
    ∃ v, minDistance t p q = some v ∧ EntryLaw b cells (freePoints b cells).length p q v

/-- The sum of the innermost body: its first summand is not the sentinel, and if its second one is
    not either, the body computes a sum that fits. -/
def SumLaw (v : Visit Point DistanceTable) : Prop :=
  ∃ ik kj, minDistance v.table v.i v.k = some ik ∧ minDistance v.table v.k v.j = some kj ∧
    ik ≠ inf ∧ (kj ≠ inf → IntRange (ik + kj))

section Law

variable {b : BoardSize} {cells : Cells} {d : Point → Point → Int} {t : DistanceTable}
  (hfree : (freePoints b cells).length ≤ 5 * 10 ^ 8)
  (hlaw : PointLaw inf (freeGraph b cells) (freePoints b cells).length d)

include hfree hlaw

theorem entryLaw_of_pointLaw (p q : Point) :
    EntryLaw b cells (freePoints b cells).length p q (d p q) := by
  rcases hlaw.sound p q with hinf | ⟨w, hw, hd⟩
  · exact Or.inl hinf
  · by_cases hne : d p q = inf
    · exact Or.inl hne
    · refine Or.inr ⟨?_, ⟨w, hw, hd⟩, fun hpq => hlaw.offDiagonal p q hpq hne, ?_⟩
      · by_cases hpq : p = q
        · subst hpq
          have := hlaw.diagonal p hne
          unfold inf at hne ⊢
          omega
        · have := hlaw.offDiagonal p q hpq hne
          unfold inf
          omega
      · rintro rfl
        exact hlaw.diagonal p hne

theorem intRange_add {p q r u : Point} (hpq : d p q ≠ inf) (hru : d r u ≠ inf) :
    IntRange (d p q + d r u) := by
  have hbound : ∀ x y, d x y ≠ inf → 0 < d x y ∧ d x y < inf := by
    intro x y hne
    have hpos := hlaw.sound.pos hne
    have hlt := ((entryLaw_of_pointLaw hfree hlaw x y).resolve_left hne).1
    exact ⟨hpos, hlt⟩
  have h₁ := hbound p q hpq
  have h₂ := hbound r u hru
  unfold inf at h₁ h₂
  exact ⟨by omega, by omega⟩

end Law

/-- **The law of `floyd()` while it runs.** At every point of the triple loop, every entry is the
    sentinel or the length of a walk of free cells with at least one step; off the diagonal it is
    less than the number of free cells, on the diagonal at most twice that. No sum overflows, and
    the entries never increase. -/
theorem floyd_points (b : BoardSize) (cells : Cells) (hfit : CellsFit b cells)
    (hfree : (freePoints b cells).length ≤ 5 * 10 ^ 8) :
    ∃ s, floydPoints b cells [] = some s ∧ floyd b cells [] = some s.1 ∧
      (∀ t ∈ tables s, EntriesLaw b cells t) ∧ (∀ v ∈ s.2, SumLaw v) ∧
      (tables s).Pairwise (NoLarger b) := by
  obtain ⟨s, d, hrun, hsame, hinit⟩ := exists_floydPoints hfit
  have hvs : ∀ p q, (freeGraph b cells).Adj p q → p ∈ freePoints b cells := fun p q h =>
    ((freeGraph_adj_iff b cells p q).mp h).1
  have hinf : ((freePoints b cells).length : Int) < inf := by
    unfold inf
    omega
  obtain ⟨hlast, hpoints⟩ := pointsLaw_tracedLoop hvs rfl hinit hinf (by decide)
  have hentries : ∀ {t d}, Represents b t d →
      PointLaw inf (freeGraph b cells) (freePoints b cells).length d → EntriesLaw b cells t :=
    fun hrep hlaw p q hp hq => ⟨_, hrep.reads p q hp hq, entryLaw_of_pointLaw hfree hlaw p q⟩
  refine ⟨s, hrun, ?_, ?_, ?_, hsame.descending⟩
  · rw [← floydPoints_fst, hrun]
    rfl
  · refine List.forall_mem_cons.mpr ⟨hentries hsame.table hlast, fun t ht => ?_⟩
    obtain ⟨v, hv, rfl⟩ := List.mem_map.mp ht
    obtain ⟨v', hv', _, _, _, _, hrep⟩ := hsame.visits v hv
    exact hentries hrep (hpoints.visits v' hv').1
  · intro v hv
    obtain ⟨v', hv', hk, hi, hj, ⟨hkb, hib, hjb⟩, hrep⟩ := hsame.visits v hv
    obtain ⟨hlaw, hguard⟩ := hpoints.visits v' hv'
    refine ⟨_, _, hrep.reads v.i v.k hib hkb, hrep.reads v.k v.j hkb hjb, ?_, fun hkj => ?_⟩
    · rw [hi, hk]
      exact hguard
    · refine intRange_add hfree hlaw ?_ hkj
      rw [hi, hk]
      exact hguard

/-- The board of three columns with one covered cell. -/
theorem floyd_points_covered :
    ∃ s, floydPoints ⟨3, 2⟩ coveredCells [] = some s ∧
      floyd ⟨3, 2⟩ coveredCells [] = some s.1 ∧
      (∀ t ∈ tables s, EntriesLaw ⟨3, 2⟩ coveredCells t) ∧ (∀ v ∈ s.2, SumLaw v) ∧
      (tables s).Pairwise (NoLarger ⟨3, 2⟩) :=
  floyd_points ⟨3, 2⟩ coveredCells ⟨by decide, by decide, by decide⟩ (by decide)

end CodeTroopers
