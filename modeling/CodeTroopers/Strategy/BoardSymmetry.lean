import CodeTroopers.Strategy.DistanceMetric
import CodeTroopers.Strategy.TargetLoop
import Mathlib.Algebra.Order.Ring.Abs
import Mathlib.Tactic.Linarith

set_option autoImplicit false

/-! # Mirrored boards

A `BoardSymmetry` lays the cells of one board on those of another, without changing a Euclidean
distance: `mirrorX` turns a board over, `transpose` swaps its axes, and the other symmetries of a
rectangle are made of these. Neighbours stay neighbours and walks stay walks, so that the table of
`floyd()` on the mirrored map is the mirrored table (`minDistance_map`), and the target loop accepts
the mirrored targets. -/

namespace CodeTroopers

/-- The square of the distance, as `distance_to` and `isVisible` compute it. -/
def Point.sqDist (q p : Point) : Int :=
  let xRange := p.x - q.x
  let yRange := p.y - q.y
  xRange * xRange + yRange * yRange

/-- A way to lay a board on another one. -/
structure BoardSymmetry (b b' : BoardSize) where
  map : Point → Point
  inv : Point → Point
  inv_map : ∀ p, inv (map p) = p
  map_inv : ∀ p, map (inv p) = p
  isCorrect_map : ∀ p, (map p).isCorrect b' = p.isCorrect b
  sqDist_map : ∀ q p, (map q).sqDist (map p) = q.sqDist p

namespace BoardSymmetry

/-! ## The symmetries of a rectangle -/

/-- The board turned over. -/
def mirrorX (b : BoardSize) : BoardSymmetry b b where
  map p := ⟨b.sizeX - 1 - p.x, p.y⟩
  inv p := ⟨b.sizeX - 1 - p.x, p.y⟩
  inv_map p := by simp
  map_inv p := by simp
  isCorrect_map p := by
    rw [Bool.eq_iff_iff, Point.isCorrect_iff, Point.isCorrect_iff]
    dsimp only
    omega
  sqDist_map q p := by
    simp only [Point.sqDist]
    ring

/-- The board with its axes swapped. -/
def transpose (b : BoardSize) : BoardSymmetry b ⟨b.sizeY, b.sizeX⟩ where
  map p := ⟨p.y, p.x⟩
  inv p := ⟨p.y, p.x⟩
  inv_map _ := rfl
  map_inv _ := rfl
  isCorrect_map p := by
    rw [Bool.eq_iff_iff, Point.isCorrect_iff, Point.isCorrect_iff]
    exact and_comm
  sqDist_map q p := by
    simp only [Point.sqDist]
    ring

variable {b b' : BoardSize} (φ : BoardSymmetry b b')

/-- The way back. -/
def symm : BoardSymmetry b' b where
  map := φ.inv
  inv := φ.map
  inv_map := φ.map_inv
  map_inv := φ.inv_map
  isCorrect_map p := by rw [← φ.isCorrect_map, φ.map_inv]
  sqDist_map q p := by rw [← φ.sqDist_map, φ.map_inv, φ.map_inv]

/-- One symmetry after the other. -/
def trans {b'' : BoardSize} (ψ : BoardSymmetry b' b'') : BoardSymmetry b b'' where
  map p := ψ.map (φ.map p)
  inv p := φ.inv (ψ.inv p)
  inv_map p := by rw [ψ.inv_map, φ.inv_map]
  map_inv p := by rw [φ.map_inv, ψ.map_inv]
  isCorrect_map p := by rw [ψ.isCorrect_map, φ.isCorrect_map]
  sqDist_map q p := by rw [ψ.sqDist_map, φ.sqDist_map]

theorem map_inj {p q : Point} : φ.map p = φ.map q ↔ p = q := by
  constructor
  · intro h
    rw [← φ.inv_map p, h, φ.inv_map]
  · intro h
    rw [h]

/-! ## Distances on the board -/

theorem distanceTo_map (q p : Point) :
    (φ.map q).distanceTo (φ.map p) = q.distanceTo p :=
  congrArg (fun n => (Float.ofInt n).sqrt) (φ.sqDist_map q p)

theorem manhattan_eq_one_iff (q p : Point) : |q.x - p.x| + |q.y - p.y| = 1 ↔ q.sqDist p = 1 := by
  have hsq : q.sqDist p = |q.x - p.x| * |q.x - p.x| + |q.y - p.y| * |q.y - p.y| := by
    rw [abs_mul_abs_self, abs_mul_abs_self, Point.sqDist]
    ring
  have hx := abs_nonneg (q.x - p.x)
  have hy := abs_nonneg (q.y - p.y)
  rw [hsq]
  generalize |q.x - p.x| = m at hx
  generalize |q.y - p.y| = n at hy
  constructor
  · intro h
    obtain ⟨rfl, rfl⟩ | ⟨rfl, rfl⟩ : m = 0 ∧ n = 1 ∨ m = 1 ∧ n = 0 := by omega
    · rfl
    · rfl
  · intro h
    have hm : m ≤ 1 := by nlinarith
    have hn : n ≤ 1 := by nlinarith
    obtain rfl | rfl : m = 0 ∨ m = 1 := by omega
    · obtain rfl | rfl : n = 0 ∨ n = 1 := by omega
      · simp at h
      · rfl
    · obtain rfl | rfl : n = 0 ∨ n = 1 := by omega
      · rfl
      · simp at h

theorem hasNeigh_map (q p : Point) : (φ.map q).hasNeigh b' (φ.map p) = q.hasNeigh b p := by
  rw [Bool.eq_iff_iff, Point.hasNeigh_iff, Point.hasNeigh_iff, φ.isCorrect_map,
    manhattan_eq_one_iff, manhattan_eq_one_iff, φ.sqDist_map]

theorem mem_neighs_map {p n : Point} (hp : p.isCorrect b = true) :
    φ.map n ∈ (φ.map p).neighs b' ↔ n ∈ p.neighs b := by
  rw [Point.mem_neighs_iff_hasNeigh b p n hp,
    Point.mem_neighs_iff_hasNeigh b' _ _ ((φ.isCorrect_map p).trans hp), φ.hasNeigh_map]

/-! ## Distances on the map -/

/-- The second map is the first one, laid on its board. -/
def MapsCells (cells cells' : Cells) : Prop :=
  ∀ p, p.isCorrect b = true → cellAt cells' (φ.map p) = cellAt cells p

variable {φ} {cells cells' : Cells}

theorem MapsCells.symm (h : φ.MapsCells cells cells') : φ.symm.MapsCells cells' cells := by
  intro p hp
  have hinv : (φ.inv p).isCorrect b = true := by rw [← φ.isCorrect_map, φ.map_inv, hp]
  have hread := h (φ.inv p) hinv
  rw [φ.map_inv] at hread
  exact hread.symm

theorem MapsCells.freeCell_map (h : φ.MapsCells cells cells') {p : Point}
    (hp : FreeCell b cells p) : FreeCell b' cells' (φ.map p) := by
  obtain ⟨hon, hfree⟩ := hp
  exact ⟨(φ.isCorrect_map p).trans hon, (h p hon).trans hfree⟩

/-- Walks over free cells are laid on walks over free cells. -/
def MapsCells.hom (h : φ.MapsCells cells cells') :
    freeGraph b cells →g freeGraph b' cells' where
  toFun := φ.map
  map_rel' := by
    rintro p q ⟨hp, hq, hadj⟩
    refine ⟨h.freeCell_map hp, h.freeCell_map hq, ?_⟩
    rw [manhattan_eq_one_iff] at hadj ⊢
    rw [φ.sqDist_map, hadj]

variable {t t' : DistanceTable}

/-- A way on the first map is one on the second. -/
theorem MapsCells.minDistance_le (h : φ.MapsCells cells cells') (ht : ExactTable b cells t)
    (ht' : ExactTable b' cells' t') {p q : Point} {u v : Int} (hu : minDistance t p q = some u)
    (hv : minDistance t' (φ.map p) (φ.map q) = some v) : v ≤ u := by
  by_cases hinf : u = inf
  · obtain ⟨hp, hq⟩ := ht'.fits.isCorrect_of_minDistance hv
    obtain ⟨v', hv', hle⟩ := ht'.exists_le_inf hp hq
    obtain rfl : v = v' := Option.some.inj (hv.symm.trans hv')
    rw [hinf]
    exact hle
  · obtain ⟨w, hpos, rfl⟩ := ht.exists_walk hu hinf
    obtain ⟨v', hv', hle, _⟩ := ht'.exists_le_length (w.map h.hom)
      (by rw [SimpleGraph.Walk.length_map]; exact hpos)
    obtain rfl : v = v' := Option.some.inj (hv.symm.trans hv')
    rw [SimpleGraph.Walk.length_map] at hle
    exact hle

/-- **The distances of the mirrored map** are those of the map. -/
theorem MapsCells.minDistance_map (h : φ.MapsCells cells cells') (ht : ExactTable b cells t)
    (ht' : ExactTable b' cells' t') {p q : Point} (hp : p.isCorrect b = true)
    (hq : q.isCorrect b = true) :
    minDistance t' (φ.map p) (φ.map q) = minDistance t p q := by
  obtain ⟨u, hu, _⟩ := ht.exists_le_inf hp hq
  obtain ⟨v, hv, _⟩ := ht'.exists_le_inf ((φ.isCorrect_map p).trans hp)
    ((φ.isCorrect_map q).trans hq)
  have hback : minDistance t (φ.symm.map (φ.map p)) (φ.symm.map (φ.map q)) = some u := by
    show minDistance t (φ.inv (φ.map p)) (φ.inv (φ.map q)) = some u
    rw [φ.inv_map, φ.inv_map, hu]
  rw [hu, hv, le_antisymm (h.minDistance_le ht ht' hu hv) (h.symm.minDistance_le ht' ht hv hback)]

theorem MapsCells.goodTarget_map_iff (h : φ.MapsCells cells cells') (ht : ExactTable b cells t)
    (ht' : ExactTable b' cells' t') {p c : Point} (hp : p.isCorrect b = true)
    (hc : c.isCorrect b = true) :
    GoodTarget b' cells' (φ.map p) (φ.map c) ↔ GoodTarget b cells p c := by
  obtain ⟨u, hu, hgood⟩ := ht.minDistance_target hp hc
  obtain ⟨v, hv, hgood'⟩ := ht'.minDistance_target ((φ.isCorrect_map p).trans hp)
    ((φ.isCorrect_map c).trans hc)
  rw [h.minDistance_map ht ht' hp hc, hu, Option.some.injEq] at hv
  rw [hgood, hgood', hv]

end BoardSymmetry

end CodeTroopers
