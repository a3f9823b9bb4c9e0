import CodeTroopers.Client.VisibilityHeader
import CodeTroopers.Library.BinaryFloat
import CodeTroopers.Library.MixedRadix
import CodeTroopers.Strategy.BoardAccess
import CodeTroopers.Strategy.FloydPoints

set_option autoImplicit false

/-! # The visibility table on the wire and in use

The server sends the table in five nested loops, and `World::isVisible` computes the index of an
entry by itself. Both use the same digits in the same order (`getElem?_visibilityTable`), so that
what is looked up is what was sent (`lookupLaw_of_stream`). -/

namespace CodeTroopers

open BinaryFloat CheckedVector MixedRadix RemoteProcessClient StreamProgram

/-! ## The layout -/

/-- The entries in the order of the wire: viewer, object, stance. -/
def visibilityTable (width height : ℕ) (V : Int → Int → Int → Int → Int → Bool) : List Bool :=
  (List.range width).flatMap fun viewerX : ℕ =>
    (List.range height).flatMap fun viewerY : ℕ =>
      (List.range width).flatMap fun objectX : ℕ =>
        (List.range height).flatMap fun objectY : ℕ =>
          (List.range 3).map fun stance : ℕ => V viewerX viewerY objectX objectY stance

theorem length_visibilityTable (width height : ℕ) (V : Int → Int → Int → Int → Int → Bool) :
    ((visibilityTable width height V).length : Int)
      = (width : Int) * height * width * height * 3 := by
  have hlen : (visibilityTable width height V).length
      = width * (height * (width * (height * 3))) :=
    length_flatMap_range (fun _ => length_flatMap_range (fun _ => length_flatMap_range (fun _ =>
      length_flatMap_range (fun _ => by simp) _) _) _) _
  rw [hlen]
  push_cast
  ring

theorem getElem?_visibilityTable {width height : ℕ} (V : Int → Int → Int → Int → Int → Bool)
    {a b c d m : ℕ} (ha : a < width) (hb : b < height) (hc : c < width) (hd : d < height)
    (hm : m < 3) :
    (visibilityTable width height V)[(((a * height + b) * width + c) * height + d) * 3 + m]?
      = some (V a b c d m) := by
  have hobjectY := digit_lt hd hm
  have hobjectX := digit_lt hc hobjectY
  have hviewerY := digit_lt hb hobjectX
  have hindex : (((a * height + b) * width + c) * height + d) * 3 + m
      = a * (height * (width * (height * 3)))
        + (b * (width * (height * 3)) + (c * (height * 3) + (d * 3 + m))) := by ring
  rw [hindex, visibilityTable, getElem?_flatMap_range _ ha hviewerY,
    getElem?_flatMap_range _ hb hobjectX, getElem?_flatMap_range _ hc hobjectY,
    getElem?_flatMap_range _ hd hm]
  · simp [hm]
  · exact fun _ => by simp
  · exact fun _ => length_flatMap_range (fun _ => by simp) _
  · exact fun _ => length_flatMap_range (fun _ => length_flatMap_range (fun _ => by simp) _) _
  · exact fun _ => length_flatMap_range (fun _ => length_flatMap_range (fun _ =>
      length_flatMap_range (fun _ => by simp) _) _) _

/-! ## The lookup -/

/-- The values `isVisible` computes before it compares with the range. -/
def rangeTerms (viewer object : Point) : List Int :=
  let xRange := object.x - viewer.x
  let yRange := object.y - viewer.y
  [xRange, yRange, xRange * xRange, yRange * yRange, xRange * xRange + yRange * yRange]

/-- `isVisible` finds the entries of `V` in the table of the world. -/
structure LookupLaw (w : World) (V : Int → Int → Int → Int → Int → Bool) : Prop where
  /-- It compares with the range and asks for the entry of the lower stance. -/
  visible : ∀ (range : Double) (r : ℚ), ExactSquare range.toFloat r →
    ∀ viewer object : Point, viewer.isCorrect w.size = true → object.isCorrect w.size = true →
    ∀ sv ∈ [TrooperStance.prone, .kneeling, .standing],
    ∀ so ∈ [TrooperStance.prone, .kneeling, .standing],
    w.isVisible range viewer sv object so
      = some (decide ((((object.x - viewer.x) ^ 2 + (object.y - viewer.y) ^ 2 : Int) : ℚ) ≤ r ^ 2)
        && V viewer.x viewer.y object.x object.y (min sv.toInt so.toInt))
  /-- No index is outside the table... -/
  inRange : ∀ viewer object : Point, viewer.isCorrect w.size = true →
    object.isCorrect w.size = true → ∀ m : Int, 0 ≤ m → m < 3 →
    0 ≤ visibilityIndex w.width.toInt w.height.toInt viewer.x viewer.y object.x object.y m ∧
      visibilityIndex w.width.toInt w.height.toInt viewer.x viewer.y object.x object.y m
        < w.cellVisibilities.length
  /-- ...nor is it that of two entries... -/
  injective : ∀ viewer object viewer' object' : Point, viewer.isCorrect w.size = true →
    object.isCorrect w.size = true → viewer'.isCorrect w.size = true →
    object'.isCorrect w.size = true → ∀ m m' : Int, 0 ≤ m → m < 3 → 0 ≤ m' → m' < 3 →
    visibilityIndex w.width.toInt w.height.toInt viewer.x viewer.y object.x object.y m
      = visibilityIndex w.width.toInt w.height.toInt viewer'.x viewer'.y object'.x object'.y m' →
    viewer = viewer' ∧ object = object' ∧ m = m'
  /-- ...and all that is computed on the way fits into an `int`. -/
  fits : ∀ viewer object : Point, viewer.isCorrect w.size = true →
    object.isCorrect w.size = true → ∀ m : Int, 0 ≤ m → m < 3 →
    ∀ v ∈ rangeTerms viewer object ++ visibilityTerms w.width.toInt w.height.toInt viewer.x
      viewer.y object.x object.y m, IntRange v

section Lookup

theorem Point.exists_natCast {p : Point} {w h : ℕ} (hp : p.isCorrect ⟨w, h⟩ = true) :
    ∃ x y : ℕ, p = ⟨x, y⟩ ∧ x < w ∧ y < h := by
  obtain ⟨⟨hx, hxw⟩, hy, hyh⟩ := (Point.isCorrect_iff _ p).mp hp
  dsimp only at hxw hyh
  obtain ⟨x, hpx⟩ := Int.eq_ofNat_of_zero_le hx
  obtain ⟨y, hpy⟩ := Int.eq_ofNat_of_zero_le hy
  exact ⟨x, y, by rw [← hpx, ← hpy], by omega, by omega⟩

theorem visibilityIndex_natCast (w h a b c d m : ℕ) :
    visibilityIndex w h a b c d m
      = (((((a * h + b) * w + c) * h + d) * 3 + m : ℕ) : Int) := by
  rw [visibilityIndex_eq]
  push_cast
  rfl

theorem visibilityIndex_inj {w h : ℕ} {p q p' q' : Point} {m m' : ℕ}
    (hp : p.isCorrect ⟨w, h⟩ = true) (hq : q.isCorrect ⟨w, h⟩ = true)
    (hp' : p'.isCorrect ⟨w, h⟩ = true) (hq' : q'.isCorrect ⟨w, h⟩ = true) (hm : m < 3)
    (hm' : m' < 3) (heq : visibilityIndex w h p.x p.y q.x q.y m
      = visibilityIndex w h p'.x p'.y q'.x q'.y m') : p = p' ∧ q = q' ∧ m = m' := by
  obtain ⟨a, b, rfl, ha, hb⟩ := Point.exists_natCast hp
  obtain ⟨c, d, rfl, hc, hd⟩ := Point.exists_natCast hq
  obtain ⟨a', b', rfl, ha', hb'⟩ := Point.exists_natCast hp'
  obtain ⟨c', d', rfl, hc', hd'⟩ := Point.exists_natCast hq'
  rw [visibilityIndex_natCast, visibilityIndex_natCast, Nat.cast_inj] at heq
  -- the digits from the last to the first
  obtain ⟨h₁, rfl⟩ := digits_inj hm hm' heq
  obtain ⟨h₂, rfl⟩ := digits_inj hd hd' h₁
  obtain ⟨h₃, rfl⟩ := digits_inj hc hc' h₂
  obtain ⟨rfl, rfl⟩ := digits_inj hb hb' h₃
  exact ⟨rfl, rfl, rfl⟩

theorem at?_visibilityTable {w h : ℕ} (V : Int → Int → Int → Int → Int → Bool) {p q : Point}
    {m : Int} (hp : p.isCorrect ⟨w, h⟩ = true) (hq : q.isCorrect ⟨w, h⟩ = true) (hm0 : 0 ≤ m)
    (hm : m < 3) :
    at? (visibilityTable w h V) (visibilityIndex w h p.x p.y q.x q.y m)
      = some (V p.x p.y q.x q.y m) := by
  obtain ⟨a, b, rfl, ha, hb⟩ := Point.exists_natCast hp
  obtain ⟨c, d, rfl, hc, hd⟩ := Point.exists_natCast hq
  obtain ⟨m, rfl⟩ := Int.eq_ofNat_of_zero_le hm0
  rw [visibilityIndex_natCast, at?_eq_some_iff, Int.toNat_natCast]
  exact ⟨Int.natCast_nonneg _, getElem?_visibilityTable V ha hb hc hd (by omega)⟩

/-- Coordinates of a board whose table is small are small, too. -/
theorem rangeTerms_bounds {w h : Int} (hboard : w * h * w * h * 3 < 2 ^ 31) {p q : Point}
    (hp : p.isCorrect ⟨w, h⟩ = true) (hq : q.isCorrect ⟨w, h⟩ = true) :
    ∀ v ∈ rangeTerms p q, IntRange v := by
  rw [Point.isCorrect_iff] at hp hq
  obtain ⟨⟨hpx, hpxw⟩, hpy, hpyh⟩ := hp
  obtain ⟨⟨hqx, hqxw⟩, hqy, hqyh⟩ := hq
  dsimp only at hpxw hpyh hqxw hqyh
  have hsquare : ∀ d n : Int, -n < d → d < n → 0 ≤ d * d ∧ d * d < n * n := by
    intro d n hlow hhigh
    have hproduct := mul_pos (sub_pos.mpr hhigh) (show 0 < n + d by omega)
    exact ⟨mul_self_nonneg d, by linarith⟩
  obtain ⟨hx0, hx⟩ := hsquare (q.x - p.x) w (by omega) (by omega)
  obtain ⟨hy0, hy⟩ := hsquare (q.y - p.y) h (by omega) (by omega)
  -- the sum of two squares is at most one more than their product
  have hsum : w * w + h * h ≤ w * h * w * h + 1 := by
    have hw1 : 0 ≤ w * w - 1 := by nlinarith
    have hh1 : 0 ≤ h * h - 1 := by nlinarith
    linarith [mul_nonneg hw1 hh1]
  have hwle : w ≤ w * w := by nlinarith
  have hhle : h ≤ h * h := by nlinarith
  simp only [rangeTerms, List.forall_mem_cons, List.not_mem_nil, false_implies, implies_true,
    and_true, IntRange]
  omega

/-- The conversion of the squared distance to `double` is exact, and so is its comparison. -/
theorem ofInt_le_range_iff {w h : Int} (hboard : w * h * w * h * 3 < 2 ^ 31) {p q : Point}
    (hp : p.isCorrect ⟨w, h⟩ = true) (hq : q.isCorrect ⟨w, h⟩ = true) {range : Double} {r : ℚ}
    (hr : ExactSquare range.toFloat r) :
    Float.ofInt ((q.x - p.x) * (q.x - p.x) + (q.y - p.y) * (q.y - p.y))
        ≤ range.toFloat * range.toFloat
      ↔ (((q.x - p.x) ^ 2 + (q.y - p.y) ^ 2 : Int) : ℚ) ≤ r ^ 2 := by
  have hmem : (q.x - p.x) * (q.x - p.x) + (q.y - p.y) * (q.y - p.y) ∈ rangeTerms p q := by
    simp [rangeTerms]
  have hfits := (rangeTerms_bounds hboard hp hq _ hmem).2
  obtain ⟨n, hn⟩ := Int.eq_ofNat_of_zero_le
    (add_nonneg (mul_self_nonneg (q.x - p.x)) (mul_self_nonneg (q.y - p.y)))
  rw [hn] at hfits
  rw [pow_two (q.x - p.x), pow_two (q.y - p.y), hn]
  exact_mod_cast ofNat_le_mul_self_iff hr (show n < 2 ^ 53 by omega)

/-- A table in the order of the wire is looked up as it is meant. -/
theorem lookupLaw_of_table {world : World} {V : Int → Int → Int → Int → Int → Bool}
    {width height : ℕ} (hwidth : world.width.toInt = width) (hheight : world.height.toInt = height)
    (hboard : (width : Int) * height * width * height * 3 < 2 ^ 31)
    (htable : world.cellVisibilities = visibilityTable width height V) : LookupLaw world V := by
  have hsize : world.size = ⟨width, height⟩ := by rw [World.size, hwidth, hheight]
  have hbounds : ∀ {p q : Point}, p.isCorrect ⟨width, height⟩ = true →
      q.isCorrect ⟨width, height⟩ = true → ∀ {m : Int}, 0 ≤ m → m < 3 →
      0 ≤ visibilityIndex width height p.x p.y q.x q.y m ∧
        visibilityIndex width height p.x p.y q.x q.y m
          < (width : Int) * height * width * height * 3 :=
    fun hp hq _ hm0 hm => visibilityIndex_bounds hp hq hm0 hm
  refine ⟨fun range r hr p q hp hq sv hsv so hso => ?_, fun p q hp hq m hm0 hm => ?_,
    fun p q p' q' hp hq hp' hq' m m' hm0 hm hm0' hm' heq => ?_, fun p q hp hq m hm0 hm v hv => ?_⟩
  · rw [hsize] at hp hq
    obtain ⟨hm0, hm⟩ := min_stance_bounds hsv hso
    have hwithin := ofInt_le_range_iff hboard hp hq hr
    unfold World.isVisible
    dsimp only
    rw [htable, hwidth, hheight, at?_visibilityTable V hp hq hm0 hm]
    by_cases hrange : (((q.x - p.x) ^ 2 + (q.y - p.y) ^ 2 : Int) : ℚ) ≤ r ^ 2
    · rw [if_pos (hwithin.mpr hrange), decide_eq_true hrange, Bool.true_and]
    · rw [if_neg fun h => hrange (hwithin.mp h), decide_eq_false hrange, Bool.false_and]
  · rw [hsize] at hp hq
    rw [hwidth, hheight, htable, length_visibilityTable]
    exact hbounds hp hq hm0 hm
  · rw [hsize] at hp hq hp' hq'
    rw [hwidth, hheight] at heq
    obtain ⟨m, rfl⟩ := Int.eq_ofNat_of_zero_le hm0
    obtain ⟨m', rfl⟩ := Int.eq_ofNat_of_zero_le hm0'
    obtain ⟨rfl, rfl, rfl⟩ := visibilityIndex_inj hp hq hp' hq' (by omega) (by omega) heq
    exact ⟨rfl, rfl, rfl⟩
  · rw [hsize] at hp hq
    rw [hwidth, hheight] at hv
    rcases List.mem_append.mp hv with hv | hv
    · exact rangeTerms_bounds hboard hp hq v hv
    · obtain ⟨h0, hle⟩ := visibilityTerms_bounds hp hq hm0 v hv
      have hlt := (hbounds hp hq hm0 hm).2
      exact ⟨by omega, by omega⟩

end Lookup

/-! ## From the wire to the lookup -/

theorem run_readCellVisibilities_table {ν : Type} (host : ByteOrder.Order) {h : VisibilityHeader}
    (hnonneg : h.Nonneg) (hproduct : h.product < 2 ^ 31) {c : Stream ν} {raw rest : List UInt8}
    (hin : c.inbound = headerFrame host h ++ (raw ++ rest))
    (hlen : (raw.length : Int) = h.product) :
    runStream (readCellVisibilities host none : Client ν (List Bool)) c
      = (.ok (raw.map fun b => decide (b ≠ 0)), { c with inbound := rest }) := by
  have hcount := h.toInt_count hnonneg hproduct
  obtain ⟨r, rest', htable, hrun⟩ := tableRun (ν := ν) host hnonneg hin
  cases htable with
  | read hlen' hfollowing =>
      obtain ⟨rfl, rfl⟩ := List.append_inj hfollowing (by omega)
      exact hrun
  | short hshort =>
      rw [List.length_append] at hshort
      omega
  | overlong hneg =>
      have := hnonneg.product_nonneg
      omega

/-- **What the server sends is what `isVisible` finds.** On every board with a table of less than
    `2 ^ 31` entries, the client reads the table the server sends for `V` and leaves what follows
    it, and on a world of these dimensions `isVisible` compares with the range and finds the entries
    of `V`; the indices are distinct and inside the table, and no `int` overflows. -/
theorem lookupLaw_of_stream {ν : Type} (host : ByteOrder.Order) (width height : Int32)
    (hwidth : 1 ≤ width.toInt) (hheight : 1 ≤ height.toInt)
    (hboard : width.toInt * height.toInt * width.toInt * height.toInt * 3 < 2 ^ 31)
    (V : Int → Int → Int → Int → Int → Bool) {c : Stream ν} {raw rest : List UInt8}
    (hin : c.inbound = headerFrame host ⟨width, height, 3⟩ ++ (raw ++ rest))
    (hraw : raw.map (fun b => decide (b ≠ 0))
      = visibilityTable width.toInt.toNat height.toInt.toNat V) :
    ∃ table, runStream (readCellVisibilities host none : Client ν (List Bool)) c
        = (.ok table, { c with inbound := rest }) ∧
      ∀ world : World, world.width = width → world.height = height →
        world.cellVisibilities = table → LookupLaw world V := by
  obtain ⟨w, hw⟩ := Int.eq_ofNat_of_zero_le (by omega : 0 ≤ width.toInt)
  obtain ⟨h, hh⟩ := Int.eq_ofNat_of_zero_le (by omega : 0 ≤ height.toInt)
  rw [hw, hh] at hboard hraw
  have hproduct : VisibilityHeader.product ⟨width, height, 3⟩ = (w : Int) * h * w * h * 3 := by
    have hthree : (3 : Int32).toInt = 3 := by decide
    rw [VisibilityHeader.product, hthree, hw, hh]
  have hnonneg : VisibilityHeader.Nonneg ⟨width, height, 3⟩ := by
    have hpos : ∀ n : Int32, 1 ≤ n.toInt → 0 ≤ n := by
      intro n hn
      rw [Int32.le_iff_toInt_le, Int32.toInt_zero]
      omega
    exact ⟨hpos width hwidth, hpos height hheight, show (0 : Int32) ≤ 3 by decide⟩
  have hlen : (raw.length : Int) = VisibilityHeader.product ⟨width, height, 3⟩ := by
    rw [hproduct, ← List.length_map, hraw, Int.toNat_natCast, Int.toNat_natCast,
      length_visibilityTable]
  refine ⟨_, run_readCellVisibilities_table host hnonneg (by omega) hin hlen, ?_⟩
  intro world hwidth' hheight' htable
  refine lookupLaw_of_table (by rw [hwidth', hw]) (by rw [hheight', hh]) hboard ?_
  rw [htable, hraw, Int.toNat_natCast, Int.toNat_natCast]

example : headerFrame .little ⟨2, 1, 3⟩ = [2, 0, 0, 0, 1, 0, 0, 0, 3, 0, 0, 0] := rfl

/-- Two cells next to each other, where a prone trooper does not see to the left. -/
def oneWay (viewerX _viewerY objectX _objectY stance : Int) : Bool :=
  decide (viewerX ≤ objectX + stance)

theorem lookupLaw_of_stream_two_one :
    ∃ table, runStream (readCellVisibilities .little none : Client Event (List Bool))
        ⟨headerFrame .little ⟨2, 1, 3⟩ ++ ([1, 1, 1, 255, 1, 1, 0, 1, 1, 1, 7, 1] ++ [0]), [], []⟩
        = (.ok table, ⟨[0], [], []⟩) ∧
      ∀ world : World, world.width = 2 → world.height = 1 →
        world.cellVisibilities = table → LookupLaw world oneWay :=
  lookupLaw_of_stream .little 2 1 (by decide) (by decide) (by decide) oneWay rfl (by decide)

/-- The square of the range `7.5` is computed exactly. -/
example : ExactSquare (Double.toFloat ⟨0x401E000000000000⟩) (15 / 2) := by
  constructor <;> decide +kernel

end CodeTroopers
