import CodeTroopers.Strategy.FloydExact
import CodeTroopers.Strategy.LegalAction
import Mathlib.Algebra.Order.Ring.Int

set_option autoImplicit false

/-! # Accesses on a board

Where the dimensions agree, a cell of the board and a pair of board points are in range: the cell
matrix, whose cells the constructor overwrites, and the visibility table, whose index has the digits
viewer, object and stance. -/

namespace CodeTroopers

open CheckedVector

/-- The trooper is on the board, in one of the three stances. -/
def Trooper.Placed (w : World) (t : Trooper) : Prop :=
  t.pos.isCorrect w.size = true ∧ t.stance ∈ [TrooperStance.prone, .kneeling, .standing]

instance (w : World) (t : Trooper) : Decidable (t.Placed w) := inferInstanceAs (Decidable (_ ∧ _))

/-! ## The visibility table -/

theorem digits_bounds {a b n k : Int} (ha : 0 ≤ a) (han : a < n) (hb : 0 ≤ b) (hbk : b < k) :
    0 ≤ a * k + b ∧ a * k + b < n * k := by
  have hk : 0 ≤ k := hb.trans hbk.le
  have hmul : (a + 1) * k ≤ n * k := Int.mul_le_mul_of_nonneg_right han hk
  have hpos : 0 ≤ a * k := Int.mul_nonneg ha hk
  rw [Int.add_mul, Int.one_mul] at hmul
  omega

/-- The index into the visibility table has the digits viewer, object and stance. -/
theorem visibilityIndex_eq (w h viewerX viewerY objectX objectY m : Int) :
    visibilityIndex w h viewerX viewerY objectX objectY m
      = (((viewerX * h + viewerY) * w + objectX) * h + objectY) * 3 + m := by
  have hcount : TrooperStance.trooperStanceCount.toInt = 3 := by decide
  unfold visibilityIndex
  rw [hcount]
  ring

theorem visibilityIndex_bounds {w h : Int} {p q : Point} {m : Int}
    (hp : p.isCorrect ⟨w, h⟩ = true) (hq : q.isCorrect ⟨w, h⟩ = true) (hm0 : 0 ≤ m) (hm : m < 3) :
    0 ≤ visibilityIndex w h p.x p.y q.x q.y m ∧
      visibilityIndex w h p.x p.y q.x q.y m < w * h * w * h * 3 := by
  rw [Point.isCorrect_iff] at hp hq
  obtain ⟨⟨hpx0, hpx⟩, hpy0, hpy⟩ := hp
  obtain ⟨⟨hqx0, hqx⟩, hqy0, hqy⟩ := hq
  obtain ⟨h₁, h₁'⟩ := digits_bounds hpx0 hpx hpy0 hpy
  obtain ⟨h₂, h₂'⟩ := digits_bounds h₁ h₁' hqx0 hqx
  obtain ⟨h₃, h₃'⟩ := digits_bounds h₂ h₂' hqy0 hqy
  obtain ⟨h₄, h₄'⟩ := digits_bounds h₃ h₃' hm0 hm
  rw [visibilityIndex_eq]
  exact ⟨h₄, h₄'⟩

theorem min_stance_bounds {s t : TrooperStance}
    (hs : s ∈ [TrooperStance.prone, .kneeling, .standing])
    (ht : t ∈ [TrooperStance.prone, .kneeling, .standing]) :
    0 ≤ min s.toInt t.toInt ∧ min s.toInt t.toInt < 3 := by
  have hbounds : ∀ u ∈ [TrooperStance.prone, .kneeling, .standing], 0 ≤ u.toInt ∧ u.toInt < 3 := by
    decide
  have h₁ := hbounds s hs
  have h₂ := hbounds t ht
  omega

/-- The entry of the visibility table that `isVisible` reads. -/
def World.visibilityAt (w : World) (viewer object : Point) (minStanceIndex : Int) : Option Bool :=
  at? w.cellVisibilities (visibilityIndex w.width.toInt w.height.toInt viewer.x viewer.y object.x
    object.y minStanceIndex)

theorem World.isVisible_eq (w : World) (range : Double) (p q : Point) (s t : TrooperStance) :
    w.isVisible range p s q t =
      if Float.ofInt ((q.x - p.x) * (q.x - p.x) + (q.y - p.y) * (q.y - p.y))
          ≤ range.toFloat * range.toFloat then
        w.visibilityAt p q (min s.toInt t.toInt)
      else some false := rfl

theorem isSome_isVisible {w : World}
    (hlen : (w.cellVisibilities.length : Int)
      = w.width.toInt * w.height.toInt * w.width.toInt * w.height.toInt * 3)
    (range : Double) {p q : Point} {s t : TrooperStance} (hp : p.isCorrect w.size = true)
    (hq : q.isCorrect w.size = true) (hs : s ∈ [TrooperStance.prone, .kneeling, .standing])
    (ht : t ∈ [TrooperStance.prone, .kneeling, .standing]) :
    (w.isVisible range p s q t).isSome := by
  unfold World.isVisible
  dsimp only
  split_ifs with hrange
  · obtain ⟨hm0, hm⟩ := min_stance_bounds hs ht
    rw [at?_isSome_iff, hlen]
    exact visibilityIndex_bounds hp hq hm0 hm
  · rfl

/-- The values of the subexpressions of the index, the index last. -/
def visibilityTerms (width height viewerX viewerY objectX objectY minStanceIndex : Int) :
    List Int :=
  let count := TrooperStance.trooperStanceCount.toInt
  let viewerXTerm := viewerX * height * width * height * count
  let viewerYTerm := viewerY * width * height * count
  let objectXTerm := objectX * height * count
  let objectYTerm := objectY * count
  [viewerX * height, viewerX * height * width, viewerX * height * width * height, viewerXTerm,
    viewerY * width, viewerY * width * height, viewerYTerm, viewerXTerm + viewerYTerm,
    objectX * height, objectXTerm, viewerXTerm + viewerYTerm + objectXTerm,
    objectYTerm, viewerXTerm + viewerYTerm + objectXTerm + objectYTerm,
    visibilityIndex width height viewerX viewerY objectX objectY minStanceIndex]

/-- On the board no subexpression is negative or exceeds the index, so that none overflows where
    the table has less than `2 ^ 31` entries. -/
theorem visibilityTerms_bounds {w h : Int} {p q : Point} {m : Int}
    (hp : p.isCorrect ⟨w, h⟩ = true) (hq : q.isCorrect ⟨w, h⟩ = true) (hm0 : 0 ≤ m) :
    ∀ v ∈ visibilityTerms w h p.x p.y q.x q.y m,
      0 ≤ v ∧ v ≤ visibilityIndex w h p.x p.y q.x q.y m := by
  rw [Point.isCorrect_iff] at hp hq
  obtain ⟨⟨hpx, hpxw⟩, hpy, hpyh⟩ := hp
  obtain ⟨⟨hqx, hqxw⟩, hqy, hqyh⟩ := hq
  have hcount : TrooperStance.trooperStanceCount.toInt = 3 := by decide
  -- a factor that is at least one keeps a product from falling
  have hmul : ∀ a b : Int, 0 ≤ a → 1 ≤ b → a ≤ a * b := fun a b ha hb =>
    le_mul_of_one_le_right ha hb
  have hw : 1 ≤ w := by
    have hlt : p.x < w := hpxw
    omega
  have hh : 1 ≤ h := by
    have hlt : p.y < h := hpyh
    omega
  have h₁ := hmul p.x h hpx hh
  have h₂ := hmul (p.x * h) w (hpx.trans h₁) hw
  have h₃ := hmul (p.x * h * w) h ((hpx.trans h₁).trans h₂) hh
  have h₄ := hmul p.y w hpy hw
  have h₅ := hmul (p.y * w) h (hpy.trans h₄) hh
  have h₆ := hmul q.x h hqx hh
  simp only [visibilityTerms, visibilityIndex, hcount, List.forall_mem_cons, List.not_mem_nil,
    false_implies, implies_true, and_true]
  generalize p.x * h * w * h = a₃ at *
  generalize p.x * h * w = a₂ at *
  generalize p.x * h = a₁ at *
  generalize p.y * w * h = b₂ at *
  generalize p.y * w = b₁ at *
  generalize q.x * h = c₁ at *
  omega

/-! ## The cells -/

/-- The constructor is defined: on the first move, which computes the distances, and later. -/
theorem SlavaStrategy.isSome_construct {self : Trooper} {world : World} {game : Game} {g : Globals}
    (hfit : CellsFit world.size world.cells)
    (hboard : ∀ t ∈ world.troopers, t.pos.isCorrect world.size = true)
    (hg : g.moveIndex + 1 = 0 → g.floydDist = []) : (construct self world game g).isSome := by
  refine (isSome_construct_iff self world game g).mpr ⟨fun hfirst => ?_, fun t ht => ?_⟩
  · obtain ⟨table, _, hfloyd, _⟩ := exists_floyd hfit
    rw [hg hfirst]
    exact Option.isSome_iff_exists.mpr ⟨table, hfloyd⟩
  · exact Option.isSome_iff_exists.mpr (hfit.exists_cellAt (hboard t ht))

end CodeTroopers
