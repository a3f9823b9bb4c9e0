import CodeTroopers.Library.BinaryFloat

set_option autoImplicit false

/-! # Square roots of integers

The square root of a natural number is computed from the integer root of the number scaled to 105 or
106 bits, and rounded to the nearest. What is rounded lies between two integers, so "nearest" is a
statement about products of integers (`exists_nearest_root`), and so is a comparison with a number
of few bits (`nearest_le_iff`). A number of at most 26 bits is told apart from every root that is
larger (`Short.sqrt_le_iff`), and its square is a float (`Short.exactSquare`): whether a distance is
compared with it or the square of the distance with its square, the answer is exact. -/

namespace BinaryFloat

open Float.Model Float.Model.UnpackedFloat

theorem sqrt_toModel (a : Float) : a.sqrt.toModel
    = Float.Model.pack (UnpackedFloat.sqrt Format.binary64 a.toModel.unpack) :=
  rfl

theorem unpack_of_value {a : Float} {m : ℕ} {e : ℤ} (h : Normal m e)
    (ha : value a = some ((m : ℚ) * 2 ^ e)) :
    a.toModel.unpack = .finite .positive m e h.pos := by
  have hpos : (0 : ℚ) < m * 2 ^ e := by
    have := h.pos
    positivity
  have hcanonical := canonical_unpack a.toModel
  rcases unpackedValue_cases ha with ⟨s, _, hzero⟩ | ⟨m', e', h', hunpack, heq, _⟩ |
    ⟨_, _, _, _, _, hneg⟩
  · exact absurd hzero hpos.ne'
  · rw [hunpack] at hcanonical ⊢
    have hnormal : Canonical (.finite .positive m e h.pos) := ⟨h.high, h.above, Or.inl h.low⟩
    have hcompare := compare_magnitude hnormal hcanonical
    rw [compare_eq_iff_eq.mpr heq, Ordering.then_eq_eq] at hcompare
    obtain rfl := compare_eq_iff_eq.mp hcompare.1
    obtain rfl := compare_eq_iff_eq.mp hcompare.2
    rfl
  · exact absurd hneg hpos.not_gt

/-! ## Rounding a mantissa of full length -/

theorem shiftToTargetExponent_full {m : ℕ} {e : ℤ} (h : Normal m e) (accuracy : Accuracy) :
    shiftToTargetExponent Format.binary64 m e accuracy
      = (ExtendedMantissa.ofMantissaAndAccuracy m accuracy, e) := by
  have habove := h.above
  have htarget : Format.binary64.targetExponent (totalExponent m e) = e := by
    rw [totalExponent, h.log2, Format.targetExponent]
    show max (((52 : ℕ) : ℤ) + 1 + e - (53 : ℕ)) (-1074) = e
    omega
  rw [shiftToTargetExponent, htarget, shiftToExponent, sub_self]
  simp only [Int.toNat_zero, Nat.cast_zero, add_zero]
  rfl

theorem roundedMantissa_ofMantissaAndAccuracy (m : ℕ) (accuracy : Accuracy) :
    (ExtendedMantissa.ofMantissaAndAccuracy m accuracy).roundedMantissa
      = accuracy.roundToNearestEven m := by
  cases accuracy with
  | exact => rfl
  | inexact o => cases o <;> rfl

theorem value_roundWithAccuracy {m : ℕ} {e : ℤ} (h : Normal m e) (he : e < 971)
    {accuracy : Accuracy}
    (hnext : accuracy.roundToNearestEven m = m ∨ accuracy.roundToNearestEven m = m + 1) :
    unpackedValue (Float.Model.pack
        (roundWithAccuracy Format.binary64 .positive m e accuracy)).unpack
      = some ((accuracy.roundToNearestEven m : ℕ) * (2 : ℚ) ^ e) := by
  generalize hr : accuracy.roundToNearestEven m = r at hnext ⊢
  have hlow := h.low
  have hhigh := h.high
  by_cases hlt : r < 2 ^ 53
  · have hnormal : Normal r e := ⟨by omega, hlt, h.above, h.below⟩
    have hround : roundWithAccuracy Format.binary64 .positive m e accuracy
        = .finite .positive r e hnormal.pos := by
      simp only [roundWithAccuracy, shiftToTargetExponent_full h,
        roundedMantissa_ofMantissaAndAccuracy, hr, shiftToTargetExponent_full hnormal]
      exact dif_neg hnormal.pos.ne'
    rw [hround, unpack_pack_model _ hnormal]
    rfl
  · -- the mantissa has become `2 ^ 53`
    have hnormal : Normal (2 ^ 52) (e + 1) :=
      ⟨by omega, by omega, by have := h.above; omega, by omega⟩
    have hfull : r = 2 ^ 52 * 2 ^ 1 := by omega
    have hshift := shiftToTargetExponent_normal hnormal 1
    rw [← hfull, Nat.cast_one, add_sub_cancel_right] at hshift
    have hround : roundWithAccuracy Format.binary64 .positive m e accuracy
        = .finite .positive (2 ^ 52) (e + 1) hnormal.pos := by
      simp only [roundWithAccuracy, shiftToTargetExponent_full h,
        roundedMantissa_ofMantissaAndAccuracy, hr, hshift]
      exact dif_neg hnormal.pos.ne'
    rw [hround, unpack_pack_model _ hnormal, unpackedValue, Sign.apply, hfull,
      zpow_add_one₀ (by norm_num : (2 : ℚ) ≠ 0)]
    push_cast
    congr 1
    ring

/-! ## The integer root -/

/-- How the root of a natural number lies to its integer root. -/
def rootAccuracy (m : ℕ) : Accuracy :=
  if m - m.sqrt * m.sqrt = 0 then .exact
  else .inexact (if m - m.sqrt * m.sqrt ≤ m.sqrt then .lt else .gt)

/-- The rounded root, and the products that tell it from the numbers next to it. -/
theorem nearest_rootAccuracy {m : ℕ} (h : 0 < m) :
    ∃ r, (rootAccuracy m).roundToNearestEven m.sqrt = r ∧ (r = m.sqrt ∨ r = m.sqrt + 1) ∧
      r * (r - 1) < m ∧ m ≤ r * (r + 1) := by
  have hle : m.sqrt * m.sqrt ≤ m := Nat.sqrt_le m
  have hlt : m < (m.sqrt + 1) * (m.sqrt + 1) := Nat.lt_succ_sqrt m
  have hpos : 0 < m.sqrt := Nat.sqrt_pos.mpr h
  have hbelow : m.sqrt * (m.sqrt - 1) < m := by
    have : m.sqrt * (m.sqrt - 1) < m.sqrt * m.sqrt := Nat.mul_lt_mul_of_pos_left (by omega) hpos
    omega
  have habove : m.sqrt * (m.sqrt + 1) = m.sqrt * m.sqrt + m.sqrt := by ring
  by_cases hup : m - m.sqrt * m.sqrt ≤ m.sqrt
  · -- rounded down
    have hround : (rootAccuracy m).roundToNearestEven m.sqrt = m.sqrt := by
      unfold rootAccuracy
      split_ifs <;> rfl
    exact ⟨_, hround, Or.inl rfl, hbelow, by omega⟩
  · have hround : (rootAccuracy m).roundToNearestEven m.sqrt = m.sqrt + 1 := by
      rw [rootAccuracy, if_neg (by omega), if_neg hup]
      rfl
    refine ⟨_, hround, Or.inr rfl, ?_, ?_⟩
    · rw [Nat.add_sub_cancel, Nat.mul_comm]
      omega
    · calc m ≤ (m.sqrt + 1) * (m.sqrt + 1) := hlt.le
        _ ≤ (m.sqrt + 1) * (m.sqrt + 1 + 1) := Nat.mul_le_mul_left _ (Nat.le_succ _)

theorem sqrtCore_natCast {n k : ℕ} (h : Normal (n * 2 ^ k) (-k)) (hk : k ≤ 52) :
    ∃ s : ℕ, 26 ≤ s ∧ s ≤ 53 ∧ 2 ^ 52 * 2 ^ 52 ≤ n * 4 ^ s ∧ n * 4 ^ s < 2 ^ 53 * 2 ^ 53 ∧
      sqrtCore Format.binary64 (n * 2 ^ k) (-k)
        = ((n * 4 ^ s).sqrt, -(s : ℤ), rootAccuracy (n * 4 ^ s)) := by
  obtain ⟨s, hs⟩ : ∃ s, s = 26 + (k + 1) / 2 := ⟨_, rfl⟩
  have hexponent : min ((-(k : ℤ)).ediv 2)
      (Format.binary64.targetExponent ((totalExponent (n * 2 ^ k) (-k) + 1).ediv 2))
        = -(s : ℤ) := by
    rw [totalExponent, h.log2, Format.targetExponent]
    show min (-(k : ℤ) / 2) (max ((((52 : ℕ) : ℤ) + 1 + -(k : ℤ) + 1) / 2 - (53 : ℕ)) (-1074)) = -s
    omega
  have hshift : (-(k : ℤ) - 2 * -(s : ℤ)).toNat = 2 * s - k := by omega
  have hscaled : n * 2 ^ k * 2 ^ (2 * s - k) = n * 4 ^ s := by
    have h4 : (4 : ℕ) ^ s = 2 ^ (2 * s) := by rw [pow_mul]; norm_num
    rw [mul_assoc, ← pow_add, h4, show k + (2 * s - k) = 2 * s by omega]
  refine ⟨s, by omega, by omega, ?_, ?_, ?_⟩
  · rw [← hscaled]
    exact Nat.mul_le_mul h.low (Nat.pow_le_pow_right (by norm_num) (by omega))
  · rw [← hscaled]
    exact Nat.mul_lt_mul_of_lt_of_le h.high (Nat.pow_le_pow_right (by norm_num) (by omega))
      (Nat.two_pow_pos _)
  · simp only [sqrtCore, hexponent, hshift, Nat.shiftLeft_eq, hscaled, rootAccuracy]

/-- **The root is rounded to the nearest**: scaled by a power of two it is an integer at most one
    half away from the root of the scaled number. -/
theorem exists_nearest_root {n : ℕ} (h0 : 0 < n) (hn : n < 2 ^ 53) :
    ∃ s r : ℕ, 26 ≤ s ∧ 2 ^ 52 ≤ r ∧ value (Float.ofNat n).sqrt = some ((r : ℚ) / 2 ^ s) ∧
      r * (r - 1) < n * 4 ^ s ∧ n * 4 ^ s ≤ r * (r + 1) := by
  obtain ⟨k, hk, h⟩ := exists_normal h0 hn
  obtain ⟨s, hs, hs', hlow, hhigh, hcore⟩ := sqrtCore_natCast h (by omega)
  have hroot : Normal (n * 4 ^ s).sqrt (-(s : ℤ)) :=
    ⟨Nat.le_sqrt.mpr hlow, Nat.sqrt_lt.mpr hhigh, by omega, by omega⟩
  obtain ⟨r, hr, hnext, hbelow, habove⟩ := nearest_rootAccuracy (m := n * 4 ^ s) (by omega)
  refine ⟨s, r, hs, ?_, ?_, hbelow, habove⟩
  · have := hroot.low
    omega
  · have hvalue := value_roundWithAccuracy hroot (by omega) (hr.symm ▸ hnext)
    have hn' : value (Float.ofNat n) = some (((n * 2 ^ k : ℕ) : ℚ) * 2 ^ (-(k : ℤ))) := by
      have hcast : value (Float.ofNat n) = some (n : ℚ) := value_ofNat hn
      rw [hcast, zpow_neg, zpow_natCast]
      push_cast
      rw [mul_assoc, mul_inv_cancel₀ (by positivity), mul_one]
    rw [value, sqrt_toModel, unpack_of_value h hn', UnpackedFloat.sqrt, hcore, hvalue, hr,
      zpow_neg, zpow_natCast, div_eq_mul_inv]

/-! ## Comparing -/

/-- A number of few bits, scaled, and an integer at most one half away from a root: they compare as
    the squares do. -/
theorem nearest_le_iff {n r s j q : ℕ} (hr : 2 ^ 52 ≤ r) (hlow : r * (r - 1) < n * 4 ^ s)
    (hhigh : n * 4 ^ s ≤ r * (r + 1)) (hj : j < 2 ^ 26) (hq : q ≤ s) :
    r ≤ j * 2 ^ (s - q) ↔ n * 4 ^ q ≤ j ^ 2 := by
  obtain ⟨d, rfl⟩ : ∃ d, s = q + d := ⟨s - q, by omega⟩
  rw [Nat.add_sub_cancel_left]
  have h4 : (4 : ℕ) ^ d = 2 ^ d * 2 ^ d := by rw [← mul_pow]; norm_num
  have hscaled : n * 4 ^ (q + d) = n * 4 ^ q * (2 ^ d * 2 ^ d) := by rw [pow_add, ← h4]; ring
  rw [hscaled] at hlow hhigh
  generalize n * 4 ^ q = N at hlow hhigh ⊢
  generalize hD : 2 ^ d = D at hlow hhigh ⊢
  constructor
  · intro hle
    by_contra hlarge
    -- the squares differ by more than the integer
    have hN : j ^ 2 + 1 ≤ N := by omega
    have hDj : j < D := by
      have : 2 ^ 52 ≤ j * D := hr.trans hle
      by_contra hsmall
      have : j * D ≤ (2 ^ 26 - 1) * (2 ^ 26 - 1) := Nat.mul_le_mul (by omega) (by omega)
      omega
    have hsquare : j * D * (j * D) + D * D ≤ N * (D * D) := by
      calc j * D * (j * D) + D * D = (j ^ 2 + 1) * (D * D) := by ring
        _ ≤ N * (D * D) := Nat.mul_le_mul_right _ hN
    have hupper : r * (r + 1) ≤ j * D * (j * D) + j * D := by
      calc r * (r + 1) ≤ j * D * (j * D + 1) := Nat.mul_le_mul hle (Nat.succ_le_succ hle)
        _ = j * D * (j * D) + j * D := by ring
    have hless : j * D < D * D := Nat.mul_lt_mul_of_pos_right hDj (by omega)
    omega
  · intro hle
    by_contra hlarge
    have hX : j * D ≤ r - 1 := by omega
    have hsquare : N * (D * D) ≤ j * D * (j * D) := by
      calc N * (D * D) ≤ j ^ 2 * (D * D) := Nat.mul_le_mul_right _ hle
        _ = j * D * (j * D) := by ring
    have hlower : j * D * (j * D) ≤ r * (r - 1) := Nat.mul_le_mul (by omega) hX
    omega

/-- The float stands for a number of at most 26 bits, at most 26 of them behind the point. -/
def Short (a : Float) (x : ℚ) : Prop :=
  value a = some x ∧ ∃ j q : ℕ, j < 2 ^ 26 ∧ q ≤ 26 ∧ x = j / 2 ^ q

/-- **A rounded root compares with a short number as the root itself does.** -/
theorem Short.sqrt_le_iff {a : Float} {x : ℚ} (h : Short a x) {n : ℕ} (hn : n < 2 ^ 53) :
    (Float.ofNat n).sqrt ≤ a ↔ (n : ℚ) ≤ x ^ 2 := by
  obtain ⟨ha, j, q, hj, hq, rfl⟩ := h
  rcases Nat.eq_zero_or_pos n with rfl | h0
  · have hzero : value (Float.ofNat 0).sqrt = some 0 := rfl
    rw [le_iff hzero ha]
    exact ⟨fun _ => by positivity, fun _ => by positivity⟩
  · obtain ⟨s, r, hs, hr, hvalue, hlow, hhigh⟩ := exists_nearest_root h0 hn
    have hnearest := nearest_le_iff hr hlow hhigh hj (hq.trans hs)
    have hscale : (2 : ℚ) ^ s = 2 ^ q * 2 ^ (s - q) := by
      rw [← pow_add, show q + (s - q) = s by omega]
    have hroot : (r : ℚ) / 2 ^ s ≤ (j : ℚ) / 2 ^ q ↔ r ≤ j * 2 ^ (s - q) := by
      rw [div_le_div_iff₀ (by positivity) (by positivity), hscale]
      rw [show (j : ℚ) * (2 ^ q * 2 ^ (s - q)) = j * 2 ^ (s - q) * 2 ^ q by ring,
        mul_le_mul_iff_left₀ (by positivity)]
      exact_mod_cast Iff.rfl
    have hsquare : (n : ℚ) ≤ ((j : ℚ) / 2 ^ q) ^ 2 ↔ n * 4 ^ q ≤ j ^ 2 := by
      have h4 : ((2 : ℚ) ^ q) ^ 2 = 4 ^ q := by rw [← pow_mul, mul_comm, pow_mul]; norm_num
      rw [div_pow, h4, le_div_iff₀ (by positivity)]
      exact_mod_cast Iff.rfl
    rw [le_iff hvalue ha, hroot, hnearest, hsquare]

/-- **The square of a short number is a float.** -/
theorem Short.exactSquare {a : Float} {x : ℚ} (h : Short a x) : ExactSquare a x := by
  refine ⟨h.1, ?_⟩
  obtain ⟨ha, j, q, hj, hq, rfl⟩ := h
  rcases Nat.eq_zero_or_pos j with rfl | h0
  · have hzero : value a = some 0 := by simpa using ha
    rcases unpackedValue_cases hzero with ⟨s, hunpack, _⟩ | ⟨_, _, _, _, _, hpos⟩ |
      ⟨_, _, _, _, _, hneg⟩
    · rw [value, mul_toModel, hunpack, UnpackedFloat.mul, Nat.cast_zero, zero_div, mul_zero]
      cases s <;> rfl
    · exact absurd hpos (lt_irrefl 0)
    · exact absurd hneg (lt_irrefl 0)
  · -- the mantissa of the square is that of the product, without some zeros
    have hsq : j ^ 2 < 2 ^ 53 := by
      have : j ^ 2 ≤ (2 ^ 26) ^ 2 := Nat.pow_le_pow_left hj.le 2
      omega
    obtain ⟨k, hk, hnormal⟩ := exists_normal h0 (by omega)
    obtain ⟨k', hk', hnormal'⟩ := exists_normal (Nat.pow_pos h0 (n := 2)) hsq
    have hlog : 2 * j.log2 ≤ (j ^ 2).log2 := by
      rw [Nat.le_log2 (Nat.pow_pos h0).ne', mul_comm, pow_mul]
      exact Nat.pow_le_pow_left (Nat.log2_self_le h0.ne') 2
    have hfactor : Normal (j * 2 ^ k) (-(k : ℤ) - q) :=
      ⟨hnormal.low, hnormal.high, by omega, by omega⟩
    have hproduct : Normal (j ^ 2 * 2 ^ k') (-(k' : ℤ) - 2 * q) :=
      ⟨hnormal'.low, hnormal'.high, by omega, by omega⟩
    have hmantissa : j * 2 ^ k * (j * 2 ^ k) = j ^ 2 * 2 ^ k' * 2 ^ (2 * k - k') := by
      rw [mul_assoc (j ^ 2), ← pow_add, show k' + (2 * k - k') = 2 * k by omega, two_mul, pow_add]
      ring
    have hexponent : (-(k : ℤ) - q) + (-(k : ℤ) - q)
        = (-(k' : ℤ) - 2 * q) - ((2 * k - k' : ℕ) : ℤ) := by omega
    have hscale : ∀ k : ℕ, (2 : ℚ) ^ k * 2 ^ (-(k : ℤ)) = 1 := fun k => by
      rw [zpow_neg, zpow_natCast, mul_inv_cancel₀ (by positivity)]
    have hvalue : value a = some (((j * 2 ^ k : ℕ) : ℚ) * 2 ^ (-(k : ℤ) - (q : ℤ))) := by
      rw [ha, zpow_sub₀ (by norm_num), zpow_natCast]
      push_cast
      rw [mul_assoc, ← mul_div_assoc, hscale, mul_one_div]
    rw [value, mul_toModel, unpack_of_value hfactor hvalue, UnpackedFloat.mul, hmantissa, hexponent]
    rw [show Sign.positive * Sign.positive = Sign.positive from rfl,
      roundWithAccuracy_normal .positive hproduct, unpack_pack_model _ hproduct, unpackedValue,
      Sign.apply]
    congr 1
    push_cast
    rw [zpow_sub₀ (by norm_num), mul_assoc, ← mul_div_assoc, hscale, mul_one_div,
      div_mul_div_comm, ← pow_two, ← pow_add, ← two_mul]
    norm_cast

end BinaryFloat
