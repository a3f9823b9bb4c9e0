import CodeTroopers.Strategy.Floyd
import CodeTroopers.Library.InPlaceFloyd

set_option autoImplicit false

/-! # Distance tables as functions

The nested vectors of `floyd_dist`, once they have the board's shape, are a function of two board
points: `Represents b t d` says that table `t` holds `d p q` at every pair of board points. Every
read of a shaped table is defined and every write is `InPlaceFloyd.update`, so a checked loop over
`floyd_dist` simulates the same loop over functions. -/

namespace CodeTroopers

open CheckedVector

/-- `v` has `n` entries, each with the property. -/
def Filled {α : Type} (n : Int) (P : α → Prop) (v : List α) : Prop :=
  (v.length : Int) = n ∧ ∀ a ∈ v, P a

theorem Filled.exists_at? {α : Type} {n : Int} {P : α → Prop} {v : List α} (h : Filled n P v)
    {i : Int} (h0 : 0 ≤ i) (hi : i < n) : ∃ a, at? v i = some a ∧ P a := by
  obtain ⟨a, ha, hat⟩ := exists_at?_of_lt v i h0 (by rw [h.1]; exact hi)
  exact ⟨a, hat, h.2 a ha⟩

/-- A vector of `n` entries is only read at an index below `n`. -/
theorem Filled.of_at? {α : Type} {n : Int} {P : α → Prop} {v : List α} (h : Filled n P v) {i : Int}
    {a : α} (hat : at? v i = some a) : (0 ≤ i ∧ i < n) ∧ P a := by
  have hlt := (at?_isSome_iff v i).mp (by rw [hat]; rfl)
  rw [h.1] at hlt
  obtain ⟨h0, hget⟩ := (at?_eq_some_iff v i a).mp hat
  exact ⟨hlt, h.2 a (List.mem_of_getElem? hget)⟩

theorem Filled.exists_set? {α : Type} {n : Int} {P : α → Prop} {v : List α} (h : Filled n P v)
    {i : Int} (h0 : 0 ≤ i) (hi : i < n) {a : α} (ha : P a) :
    ∃ w, set? v i a = some w ∧ Filled n P w := by
  have hset := set?_eq_some v i a h0 (by rw [h.1]; exact hi)
  refine ⟨_, hset, ?_, fun c hc => ?_⟩
  · rw [length_set? hset, h.1]
  · rcases mem_of_set?_eq_some hset hc with hc | rfl
    · exact h.2 c hc
    · exact ha

theorem filled_replicate {α : Type} {n : Int} (hn : 0 ≤ n) {P : α → Prop} {a : α} (ha : P a) :
    Filled n P (List.replicate n.toNat a) := by
  refine ⟨by rw [List.length_replicate]; omega, fun c hc => ?_⟩
  rw [List.eq_of_mem_replicate hc]
  exact ha

/-- A cell matrix with the board's dimensions. -/
structure CellsFit (b : BoardSize) (cells : Cells) : Prop where
  sizeY_nonneg : 0 ≤ b.sizeY
  columns : Filled b.sizeX (fun column => (column.length : Int) = b.sizeY) cells

theorem CellsFit.isCorrect_of_cellAt {b : BoardSize} {cells : Cells} (h : CellsFit b cells)
    {p : Point} {c : CellType} (hread : cellAt cells p = some c) : p.isCorrect b = true := by
  simp only [cellAt, Option.bind_eq_bind, Option.bind_eq_some_iff] at hread
  obtain ⟨column, hcol, hc⟩ := hread
  obtain ⟨hx, hlen⟩ := h.columns.of_at? hcol
  have hy := (at?_isSome_iff column p.y).mp (by rw [hc]; rfl)
  rw [hlen] at hy
  exact (Point.isCorrect_iff b p).mpr ⟨hx, hy⟩

theorem CellsFit.exists_cellAt {b : BoardSize} {cells : Cells} (h : CellsFit b cells) {p : Point}
    (hp : p.isCorrect b = true) : ∃ c, cellAt cells p = some c := by
  rw [Point.isCorrect_iff] at hp
  obtain ⟨⟨hx0, hx⟩, hy0, hy⟩ := hp
  obtain ⟨column, hcol, hlen⟩ := h.columns.exists_at? hx0 hx
  obtain ⟨c, _, hc⟩ := exists_at?_of_lt column p.y hy0 (by rw [hlen]; exact hy)
  exact ⟨c, by simp [cellAt, hcol, hc]⟩

/-- A distance table with the board's dimensions. -/
def TableFits (b : BoardSize) (t : DistanceTable) : Prop :=
  Filled b.sizeX (Filled b.sizeY (Filled b.sizeX (Filled b.sizeY fun _ => True))) t

/-- The table holds `d` at the board points. -/
structure Represents (b : BoardSize) (t : DistanceTable) (d : Point → Point → Int) : Prop where
  fits : TableFits b t
  reads : ∀ p q, p.isCorrect b = true → q.isCorrect b = true → minDistance t p q = some (d p q)

theorem TableFits.exists_path {b : BoardSize} {t : DistanceTable} (h : TableFits b t)
    {p q : Point} (hp : p.isCorrect b = true) (hq : q.isCorrect b = true) :
    ∃ plane grid row v, at? t p.x = some plane ∧ at? plane p.y = some grid ∧
      at? grid q.x = some row ∧ at? row q.y = some v ∧
      Filled b.sizeY (Filled b.sizeX (Filled b.sizeY fun _ => True)) plane ∧
      Filled b.sizeX (Filled b.sizeY fun _ => True) grid ∧
      Filled b.sizeY (fun _ : Int => True) row := by
  rw [Point.isCorrect_iff] at hp hq
  obtain ⟨plane, hplane, hplane'⟩ := h.exists_at? hp.1.1 hp.1.2
  obtain ⟨grid, hgrid, hgrid'⟩ := hplane'.exists_at? hp.2.1 hp.2.2
  obtain ⟨row, hrow, hrow'⟩ := hgrid'.exists_at? hq.1.1 hq.1.2
  obtain ⟨v, hv, _⟩ := hrow'.exists_at? hq.2.1 hq.2.2
  exact ⟨plane, grid, row, v, hplane, hgrid, hrow, hv, hplane', hgrid', hrow'⟩

theorem TableFits.isCorrect_of_minDistance {b : BoardSize} {t : DistanceTable}
    (h : TableFits b t) {p q : Point} {v : Int} (hread : minDistance t p q = some v) :
    p.isCorrect b = true ∧ q.isCorrect b = true := by
  simp only [minDistance, Option.bind_eq_bind, Option.bind_eq_some_iff] at hread
  obtain ⟨plane, hplane, grid, hgrid, row, hrow, hv⟩ := hread
  obtain ⟨hpx, hplane'⟩ := h.of_at? hplane
  obtain ⟨hpy, hgrid'⟩ := hplane'.of_at? hgrid
  obtain ⟨hqx, hrow'⟩ := hgrid'.of_at? hrow
  obtain ⟨hqy, _⟩ := hrow'.of_at? hv
  exact ⟨(Point.isCorrect_iff b p).mpr ⟨hpx, hpy⟩, (Point.isCorrect_iff b q).mpr ⟨hqx, hqy⟩⟩

/-- Reading `p q` of the table written at `a c`. -/
theorem minDistance_of_setDistance {t t' : DistanceTable} {a c : Point} {v : Int}
    (h : setDistance t a c v = some t') (p q : Point) :
    minDistance t' p q = if p = a ∧ q = c then some v else minDistance t p q := by
  simp only [setDistance, Option.bind_eq_bind, Option.bind_eq_some_iff] at h
  obtain ⟨plane, hplane, grid, hgrid, row, hrow, row', hrow', grid', hgrid', plane', hplane', ht⟩ :=
    h
  obtain ⟨px, py⟩ := p
  obtain ⟨qx, qy⟩ := q
  obtain ⟨ax, ay⟩ := a
  obtain ⟨cx, cy⟩ := c
  simp only [minDistance, Option.bind_eq_bind, at?_of_set?_eq_some ht, Point.mk.injEq]
  -- one level of the table after the other: the written vector at its index, the old one elsewhere
  by_cases hpx : px = ax
  · subst hpx
    simp only [if_true, Option.bind_some, at?_of_set?_eq_some hplane']
    by_cases hpy : py = ay
    · subst hpy
      simp only [if_true, Option.bind_some, at?_of_set?_eq_some hgrid']
      by_cases hqx : qx = cx
      · subst hqx
        simp only [if_true, Option.bind_some, at?_of_set?_eq_some hrow']
        by_cases hqy : qy = cy
        · simp [hqy]
        · simp [hqy, hplane, hgrid, hrow]
      · simp [hqx, hplane, hgrid]
    · simp [hpy, hplane]
  · simp [hpx]

theorem Represents.set {b : BoardSize} {t : DistanceTable} {d : Point → Point → Int}
    (h : Represents b t d) {p q : Point} (hp : p.isCorrect b = true) (hq : q.isCorrect b = true)
    (v : Int) :
    ∃ t', setDistance t p q v = some t' ∧ Represents b t' (InPlaceFloyd.update d p q v) := by
  obtain ⟨plane, grid, row, _, hplane, hgrid, hrow, _, fplane, fgrid, frow⟩ :=
    h.fits.exists_path hp hq
  have hp' := (Point.isCorrect_iff b p).mp hp
  have hq' := (Point.isCorrect_iff b q).mp hq
  obtain ⟨row', hrow', frow'⟩ : ∃ w, set? row q.y v = some w ∧ Filled b.sizeY (fun _ => True) w :=
    frow.exists_set? hq'.2.1 hq'.2.2 trivial
  obtain ⟨grid', hgrid', fgrid'⟩ := fgrid.exists_set? hq'.1.1 hq'.1.2 frow'
  obtain ⟨plane', hplane', fplane'⟩ := fplane.exists_set? hp'.2.1 hp'.2.2 fgrid'
  obtain ⟨t', ht', ft'⟩ := h.fits.exists_set? hp'.1.1 hp'.1.2 fplane'
  have hset : setDistance t p q v = some t' := by
    simp [setDistance, hplane, hgrid, hrow, hrow', hgrid', hplane', ht']
  refine ⟨t', hset, ft', fun a c ha hc => ?_⟩
  rw [minDistance_of_setDistance hset, h.reads a c ha hc]
  unfold InPlaceFloyd.update
  split_ifs <;> rfl

/-- A freshly resized table holds the sentinel everywhere. -/
theorem exists_resizeTable {b : BoardSize} (hx : 0 ≤ b.sizeX) (hy : 0 ≤ b.sizeY) :
    ∃ t, resizeTable b [] = some t ∧ Represents b t fun _ _ => inf := by
  have hresize : ∀ {α : Type} (n : Int) (a : α), 0 ≤ n →
      resize? [] n a = some (List.replicate n.toNat a) := by
    intro α n a hn
    simp [resize?, hn]
  have hrun : resizeTable b [] = some (List.replicate b.sizeX.toNat (List.replicate b.sizeY.toNat
      (List.replicate b.sizeX.toNat (List.replicate b.sizeY.toNat inf)))) := by
    simp only [resizeTable, hresize _ _ hx, hresize _ _ hy, Option.bind_eq_bind,
      Option.bind_some]
  refine ⟨_, hrun, ?_, ?_⟩
  · exact filled_replicate hx (filled_replicate hy (filled_replicate hx
      (filled_replicate hy trivial)))
  · intro p q hp hq
    rw [Point.isCorrect_iff] at hp hq
    have hread : ∀ {α : Type} (n i : Int) (a : α), 0 ≤ i → i < n →
        at? (List.replicate n.toNat a) i = some a := by
      intro α n i a h0 hi
      have : i.toNat < n.toNat := by omega
      simp [at?, h0, this]
    simp only [minDistance, hread _ _ _ hp.1.1 hp.1.2, hread _ _ _ hp.2.1 hp.2.2,
      hread _ _ _ hq.1.1 hq.1.2, hread _ _ _ hq.2.1 hq.2.2, Option.bind_eq_bind,
      Option.bind_some]

end CodeTroopers
