import CodeTroopers.Model.Entities
import CodeTroopers.Library.CheckedVector
import Mathlib.Algebra.Order.Group.Int
import Mathlib.Algebra.Order.Group.Abs

set_option autoImplicit false

/-! # Points of the board

`struct Point` of `MyStrategy.cpp` and `World::isVisible`. An `int` of the strategy is an
unbounded integer here: signed overflow is undefined in the source, and a run without overflow
computes exactly these values. The globals `sizeX` and `sizeY` are the fields of `BoardSize`.
A `double` comparison is the comparison of `Float`, whose operations round as binary64 does. -/

namespace CodeTroopers

/-- The globals `sizeX` and `sizeY`. -/
structure BoardSize where
  sizeX : Int
  sizeY : Int
deriving DecidableEq

/-- `struct Point`. -/
structure Point where
  x : Int
  y : Int
deriving DecidableEq

/-- `Point(const Unit&)` for a trooper. -/
def Trooper.pos (t : Trooper) : Point := ⟨t.x.toInt, t.y.toInt⟩

/-- `Point(const Unit&)` for a bonus. -/
def Bonus.pos (b : Bonus) : Point := ⟨b.x.toInt, b.y.toInt⟩

namespace Point

/-- `isCorrect`: the point lies on the board. -/
def isCorrect (b : BoardSize) (p : Point) : Bool :=
  decide (0 ≤ p.x) && decide (p.x < b.sizeX) && decide (0 ≤ p.y) && decide (p.y < b.sizeY)

/-- `has_neigh`. -/
def hasNeigh (b : BoardSize) (q p : Point) : Bool :=
  p.isCorrect b && decide (|q.x - p.x| + |q.y - p.y| = 1)

/-- `neighs`, in the order left, up, right, down. -/
def neighs (b : BoardSize) (p : Point) : List Point :=
  (if p.x - 1 ≥ 0 then [⟨p.x - 1, p.y⟩] else []) ++
  (if p.y - 1 ≥ 0 then [⟨p.x, p.y - 1⟩] else []) ++
  (if p.x + 1 < b.sizeX then [⟨p.x + 1, p.y⟩] else []) ++
  (if p.y + 1 < b.sizeY then [⟨p.x, p.y + 1⟩] else [])

/-- `distance_to`: the Euclidean distance, in `double`. -/
def distanceTo (q p : Point) : Float :=
  let xRange := p.x - q.x
  let yRange := p.y - q.y
  (Float.ofInt (xRange * xRange + yRange * yRange)).sqrt

theorem isCorrect_iff (b : BoardSize) (p : Point) :
    p.isCorrect b = true ↔ (0 ≤ p.x ∧ p.x < b.sizeX) ∧ 0 ≤ p.y ∧ p.y < b.sizeY := by
  simp [isCorrect, and_assoc]

theorem hasNeigh_iff (b : BoardSize) (q p : Point) :
    q.hasNeigh b p = true ↔ p.isCorrect b = true ∧ |q.x - p.x| + |q.y - p.y| = 1 := by
  simp [hasNeigh]

theorem mem_neighs_iff (b : BoardSize) (p n : Point) :
    n ∈ p.neighs b ↔ (n = ⟨p.x - 1, p.y⟩ ∧ 0 ≤ n.x) ∨ (n = ⟨p.x, p.y - 1⟩ ∧ 0 ≤ n.y) ∨
      (n = ⟨p.x + 1, p.y⟩ ∧ n.x < b.sizeX) ∨ (n = ⟨p.x, p.y + 1⟩ ∧ n.y < b.sizeY) := by
  have hite : ∀ (c : Prop) [Decidable c] (m : Point),
      n ∈ (if c then [m] else []) ↔ n = m ∧ c := by
    intro c _ m
    split_ifs with h <;> simp [h]
  simp only [neighs, List.mem_append, hite, or_assoc]
  refine or_congr ?_ (or_congr ?_ (or_congr ?_ ?_)) <;>
    exact and_congr_right fun h => by rw [h]

/-- From a point of the board, `neighs` lists exactly the points that `has_neigh` accepts: the
    board cells at Manhattan distance 1. -/
theorem mem_neighs_iff_hasNeigh (b : BoardSize) (p n : Point) (hp : p.isCorrect b = true) :
    n ∈ p.neighs b ↔ p.hasNeigh b n = true := by
  obtain ⟨px, py⟩ := p
  obtain ⟨nx, ny⟩ := n
  rw [mem_neighs_iff, hasNeigh_iff]
  rw [isCorrect_iff] at hp ⊢
  simp only [Point.mk.injEq] at hp ⊢
  rcases abs_cases (px - nx) with ⟨h₁, _⟩ | ⟨h₁, _⟩ <;>
    rcases abs_cases (py - ny) with ⟨h₂, _⟩ | ⟨h₂, _⟩ <;>
      rw [h₁, h₂] <;> omega

end Point

/-! ## Visibility -/

/-- The index `isVisible` computes into the visibility table. -/
def visibilityIndex (width height viewerX viewerY objectX objectY minStanceIndex : Int) : Int :=
  viewerX * height * width * height * TrooperStance.trooperStanceCount.toInt
    + viewerY * width * height * TrooperStance.trooperStanceCount.toInt
    + objectX * height * TrooperStance.trooperStanceCount.toInt
    + objectY * TrooperStance.trooperStanceCount.toInt
    + minStanceIndex

/-- `World::isVisible`. The table is only read when the object is within the range. -/
def World.isVisible (w : World) (maxRange : Double) (viewer : Point) (viewerStance : TrooperStance)
    (object : Point) (objectStance : TrooperStance) : Option Bool :=
  let minStanceIndex := min viewerStance.toInt objectStance.toInt
  let xRange := object.x - viewer.x
  let yRange := object.y - viewer.y
  if Float.ofInt (xRange * xRange + yRange * yRange) ≤ maxRange.toFloat * maxRange.toFloat then
    CheckedVector.at? w.cellVisibilities (visibilityIndex w.width.toInt w.height.toInt
      viewer.x viewer.y object.x object.y minStanceIndex)
  else some false

end CodeTroopers
