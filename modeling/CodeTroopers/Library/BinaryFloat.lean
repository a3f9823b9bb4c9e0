import Mathlib

set_option autoImplicit false

/-! # Binary floating-point numbers and the rationals

`value` is the rational number a 64-bit float stands for. Natural numbers below `2 ^ 53` are floats
(`value_ofNat`), and finite floats compare like their values (`le_iff`): in canonical form, the
exponent decides before the mantissa does (`compare_magnitude`). So a natural number is compared
with a square as with the rational square, if that is a float (`ofNat_le_mul_self_iff`). -/

namespace BinaryFloat

open Float.Model Float.Model.UnpackedFloat

/-! ## Values -/

/-- The rational number an unpacked float stands for. -/
def unpackedValue : UnpackedFloat → Option ℚ
  | .zero _ => some 0
  | .finite s m e _ => some (s.apply m * 2 ^ e)
  | _ => none

/-- The rational number a float stands for; infinities and NaN stand for none. -/
def value (a : Float) : Option ℚ := unpackedValue a.toModel.unpack

theorem mul_toModel (a b : Float) : (a * b).toModel
    = Float.Model.pack (UnpackedFloat.mul Format.binary64 a.toModel.unpack b.toModel.unpack) :=
  rfl

theorem unpackedValue_cases {u : UnpackedFloat} {x : ℚ} (hx : unpackedValue u = some x) :
    (∃ s, u = .zero s ∧ x = 0) ∨
      (∃ m e h, u = .finite .positive m e h ∧ x = m * 2 ^ e ∧ 0 < x) ∨
      ∃ m e h, u = .finite .negative m e h ∧ x = -(m * 2 ^ e) ∧ x < 0 := by
  cases u with
  | notANumber => simp [unpackedValue] at hx
  | infinity s => simp [unpackedValue] at hx
  | zero s =>
      rw [unpackedValue, Option.some.injEq] at hx
      exact Or.inl ⟨s, rfl, hx.symm⟩
  | finite s m e h =>
      have hpos : (0 : ℚ) < m * 2 ^ e := by positivity
      cases s with
      | positive =>
          obtain rfl : (m : ℚ) * 2 ^ e = x := by simpa [unpackedValue, Sign.apply] using hx
          exact Or.inr (Or.inl ⟨m, e, h, rfl, rfl, hpos⟩)
      | negative =>
          obtain rfl : -((m : ℚ) * 2 ^ e) = x := by simpa [unpackedValue, Sign.apply] using hx
          exact Or.inr (Or.inr ⟨m, e, h, rfl, rfl, neg_lt_zero.mpr hpos⟩)

/-! ## Packing normal numbers -/

/-- The mantissa and the exponent of a normal number. -/
structure Normal (m : ℕ) (e : ℤ) : Prop where
  low : 2 ^ 52 ≤ m
  high : m < 2 ^ 53
  above : -1074 ≤ e
  below : e ≤ 971

theorem Normal.pos {m : ℕ} {e : ℤ} (h : Normal m e) : 0 < m := by
  have := h.low
  omega

theorem Normal.log2 {m : ℕ} {e : ℤ} (h : Normal m e) : m.log2 = 52 :=
  (Nat.log2_eq_iff h.pos.ne').mpr ⟨h.low, h.high⟩

theorem toNat_one_append {m : ℕ} {e : ℤ} (h : Normal m e) :
    (1#1 ++ BitVec.ofNat 52 m).toNat = m := by
  have hlow := h.low
  have hhigh := h.high
  rw [BitVec.toNat_append, ← Nat.shiftLeft_add_eq_or_of_lt (BitVec.isLt _), BitVec.toNat_ofNat,
    Nat.shiftLeft_eq, BitVec.toNat_ofNat]
  omega

theorem unpack_pack_normal (s : Sign) {m : ℕ} {e : ℤ} (h : Normal m e) :
    UnpackedFloat.unpack Format.binary64 (UnpackedFloat.pack Format.binary64 (.finite s m e h.pos))
      = .finite s m e h.pos := by
  have habove := h.above
  have hbelow := h.below
  have hlog := h.log2
  obtain ⟨b, hb⟩ : ∃ b : ℕ, (b : ℤ) = e + 1023 + 52 := ⟨(e + 1023 + 52).toNat, by omega⟩
  have hbits : (BitVec.ofNat 11 b).toNat = b := by
    rw [BitVec.toNat_ofNat]
    omega
  have hzero : BitVec.ofNat 11 b ≠ 0#11 := by
    intro heq
    have := congrArg BitVec.toNat heq
    rw [hbits] at this
    simp at this
    omega
  have hones : BitVec.ofNat 11 b ≠ -1#11 := by
    intro heq
    have := congrArg BitVec.toNat heq
    rw [hbits] at this
    simp at this
    omega
  have hpack : UnpackedFloat.pack Format.binary64 (.finite s m e h.pos)
      = packComponents Format.binary64 s (BitVec.ofNat 11 b) (BitVec.ofNat 52 m) := by
    have hbias : (e + (Format.binary64.exponentBias : ℤ)
        + (Format.binary64.mantissaBitsWithoutImplicit : ℤ)).toNat = b := by
      show (e + (1023 : ℕ) + (52 : ℕ)).toNat = b
      omega
    simp only [UnpackedFloat.pack, hbias, hlog]
    rw [if_neg (by show ¬ 2 ^ 11 ≤ b + 1; omega), if_pos (by decide)]
  rw [hpack]
  simp only [UnpackedFloat.unpack, unpackMantissa_packComponents, unpackExponent_packComponents,
    unpackSign_packComponents, Sign.ofBitVec_toBitVec, if_neg hones, if_neg hzero, hbits,
    toNat_one_append h]
  congr 1
  show (b : ℤ) - ((1023 : ℕ) + (52 : ℕ)) = e
  omega

theorem unpack_pack_model (s : Sign) {m : ℕ} {e : ℤ} (h : Normal m e) :
    (Float.Model.pack (.finite s m e h.pos)).unpack = .finite s m e h.pos :=
  unpack_pack_normal s h

/-! ## Rounding what is exact -/

theorem shiftRight_mul_two_pow (m k : ℕ) :
    ExtendedMantissa.ofMantissaAndAccuracy (m * 2 ^ k) .exact >>> k
      = ExtendedMantissa.ofMantissaAndAccuracy m .exact := by
  show Nat.repeat ExtendedMantissa.shiftRightOne k _ = _
  induction k generalizing m with
  | zero => simp [Nat.repeat]
  | succ k ih =>
      have hm : m * 2 ^ (k + 1) = (m * 2) * 2 ^ k := by rw [pow_succ]; ring
      rw [Nat.repeat, hm, ih]
      simp [ExtendedMantissa.ofMantissaAndAccuracy, ExtendedMantissa.shiftRightOne]

theorem log2_mul_two_pow {m : ℕ} {e : ℤ} (h : Normal m e) (k : ℕ) :
    (m * 2 ^ k).log2 = 52 + k := by
  have hpos : m * 2 ^ k ≠ 0 := (Nat.mul_pos h.pos (Nat.two_pow_pos k)).ne'
  rw [Nat.log2_eq_iff hpos, pow_add, show 52 + k + 1 = 53 + k by omega, pow_add]
  exact ⟨Nat.mul_le_mul_right _ h.low, Nat.mul_lt_mul_of_pos_right h.high (Nat.two_pow_pos k)⟩

theorem shiftToTargetExponent_normal {m : ℕ} {e : ℤ} (h : Normal m e) (k : ℕ) :
    shiftToTargetExponent Format.binary64 (m * 2 ^ k) (e - k) .exact
      = (ExtendedMantissa.ofMantissaAndAccuracy m .exact, e) := by
  have habove := h.above
  have htarget : Format.binary64.targetExponent (totalExponent (m * 2 ^ k) (e - k)) = e := by
    rw [totalExponent, log2_mul_two_pow h, Format.targetExponent]
    show max (((52 + k : ℕ) : ℤ) + 1 + (e - k) - (53 : ℕ)) (-1074) = e
    omega
  rw [shiftToTargetExponent, htarget, shiftToExponent]
  have hk : (e - (e - k)).toNat = k := by omega
  rw [hk, shiftRight_mul_two_pow]
  simp

/-- Rounding a normal number changes nothing, whatever zeros its mantissa ends with. -/
theorem roundWithAccuracy_normal (s : Sign) {m : ℕ} {e : ℤ} (h : Normal m e) (k : ℕ) :
    roundWithAccuracy Format.binary64 s (m * 2 ^ k) (e - k) .exact = .finite s m e h.pos := by
  have hround : (ExtendedMantissa.ofMantissaAndAccuracy m .exact).roundedMantissa = m := rfl
  have hagain := shiftToTargetExponent_normal h 0
  simp only [pow_zero, mul_one, Nat.cast_zero, sub_zero] at hagain
  simp only [roundWithAccuracy, shiftToTargetExponent_normal h k, hround, hagain]
  exact dif_neg h.pos.ne'

/-! ## Natural numbers -/

/-- The mantissa and the exponent of a natural number. -/
theorem exists_normal {n : ℕ} (h0 : 0 < n) (hn : n < 2 ^ 53) :
    ∃ k, n.log2 + k = 52 ∧ Normal (n * 2 ^ k) (-k) := by
  have hlog : n.log2 < 53 := (Nat.log2_lt h0.ne').mpr hn
  obtain ⟨k, hk⟩ : ∃ k, n.log2 + k = 52 := ⟨52 - n.log2, by omega⟩
  have hlow := Nat.mul_le_mul_right (2 ^ k) (Nat.log2_self_le h0.ne')
  have hhigh := Nat.mul_lt_mul_of_pos_right (Nat.lt_log2_self (n := n)) (Nat.two_pow_pos k)
  rw [← pow_add, hk] at hlow
  rw [← pow_add, show n.log2 + 1 + k = 53 by omega] at hhigh
  exact ⟨k, hk, hlow, hhigh, by omega, by omega⟩

theorem normalize_natCast {n k : ℕ} (h0 : 0 < n) (hk : n.log2 + k = 52)
    (h : Normal (n * 2 ^ k) (-k)) (s : Sign) :
    UnpackedFloat.normalize Format.binary64 n 0 s = .finite .positive (n * 2 ^ k) (-k) h.pos := by
  have hcompare : compare (n : ℤ) 0 = .gt := Int.compare_eq_gt.mpr (by omega)
  have htarget : Format.binary64.targetExponent (totalExponent n 0) = -k := by
    rw [totalExponent, Format.targetExponent]
    show max ((n.log2 : ℤ) + 1 + 0 - (53 : ℕ)) (-1074) = -k
    omega
  have hdecrease : decreaseExponent n 0 (-k) = (n * 2 ^ k, -(k : ℤ)) := by
    have hshift : (0 - -(k : ℤ)).toNat = k := by omega
    rw [decreaseExponent, hshift, Nat.shiftLeft_eq]
    simp
  have hround := roundWithAccuracy_normal .positive h 0
  simp only [pow_zero, mul_one, Nat.cast_zero, sub_zero] at hround
  simp only [UnpackedFloat.normalize, hcompare, Int.toNat_natCast, UnpackedFloat.round, htarget,
    hdecrease, hround]

theorem unpack_one : (Float.ofBits 0x3FF0000000000000).toModel.unpack
    = .finite .positive (2 ^ 52) (-52) (by decide) := rfl

theorem unpack_toFloat {n k : ℕ} (h0 : 0 < n) (hn : n < 2 ^ 53) (hk : n.log2 + k = 52)
    (h : Normal (n * 2 ^ k) (-k)) :
    n.toUInt64.toFloat.toModel.unpack = .finite .positive (n * 2 ^ k) (-k) h.pos := by
  have hnat : n.toUInt64.toNat = n := by
    rw [Nat.toUInt64, UInt64.toNat_ofNat']
    exact Nat.mod_eq_of_lt (by omega)
  show (Float.Model.pack (UnpackedFloat.normalize Format.binary64 (n.toUInt64.toNat : ℤ) 0
    .positive)).unpack = _
  rw [hnat, normalize_natCast h0 hk h, unpack_pack_model _ h]

/-- **Natural numbers below `2 ^ 53` are floats.** -/
theorem value_ofNat {n : ℕ} (hn : n < 2 ^ 53) : value (Float.ofNat n) = some n := by
  have hofNat : Float.ofNat n = n.toUInt64.toFloat * Float.ofBits 0x3FF0000000000000 := by
    show Float.ofScientific n false 0 = _
    rw [Float.ofScientific, dif_pos ⟨hn, by decide⟩]
    rfl
  rcases Nat.eq_zero_or_pos n with rfl | h0
  · rfl
  · obtain ⟨k, hk, h⟩ := exists_normal h0 hn
    have hround := roundWithAccuracy_normal .positive h 52
    have hmul : (-(k : ℤ)) + -52 = -(k : ℤ) - (52 : ℕ) := by omega
    rw [value, hofNat, mul_toModel, unpack_one, unpack_toFloat h0 hn hk h, UnpackedFloat.mul, hmul]
    rw [show Sign.positive * Sign.positive = Sign.positive from rfl, hround,
      unpack_pack_model _ h]
    rw [unpackedValue, Sign.apply]
    congr 1
    push_cast
    rw [zpow_neg, zpow_natCast, mul_assoc, mul_inv_cancel₀ (by positivity), mul_one]

/-! ## Comparing -/

/-- The form in which finite numbers are unpacked: normal, or with the least exponent. -/
def Canonical : UnpackedFloat → Prop
  | .finite _ m e _ => m < 2 ^ 53 ∧ -1074 ≤ e ∧ (2 ^ 52 ≤ m ∨ e = -1074)
  | _ => True

theorem canonical_unpack (a : Float.Model) : Canonical a.unpack := by
  have hm : (@unpackMantissa Format.binary64 a.toBits.toBitVec).toNat < 2 ^ 52 := BitVec.isLt _
  simp only [Float.Model.unpack, UnpackedFloat.unpack]
  split_ifs with h1 h2 h3 h4
  · trivial
  · trivial
  · trivial
  · -- a subnormal number has the least exponent
    have hleast : ((@unpackExponent Format.binary64 a.toBits.toBitVec).toNat : ℤ)
        - ((1023 : ℕ) + (52 : ℕ)) + 1 = -1074 := by
      rw [h3]
      rfl
    exact ⟨by omega, hleast.ge, Or.inr hleast⟩
  · have he : 0 < (@unpackExponent Format.binary64 a.toBits.toBitVec).toNat :=
      Nat.pos_of_ne_zero fun h0 => h3 (BitVec.eq_of_toNat_eq h0)
    have happend : (1#1 ++ @unpackMantissa Format.binary64 a.toBits.toBitVec).toNat
        = 2 ^ 52 + (@unpackMantissa Format.binary64 a.toBits.toBitVec).toNat := by
      rw [BitVec.toNat_append, ← Nat.shiftLeft_add_eq_or_of_lt hm]
      rfl
    refine ⟨by omega, ?_, Or.inl (by omega)⟩
    show -1074 ≤ ((@unpackExponent Format.binary64 a.toBits.toBitVec).toNat : ℤ)
      - ((1023 : ℕ) + (52 : ℕ))
    omega

theorem mul_zpow_lt {m m' : ℕ} {e e' : ℤ} (hm : m < 2 ^ 53) (hm' : 2 ^ 52 ≤ m') (he : e < e') :
    (m : ℚ) * 2 ^ e < m' * 2 ^ e' := by
  have h2 : (2 : ℚ) ≠ 0 := by norm_num
  have hpos : (0 : ℚ) < 2 ^ e := by positivity
  calc (m : ℚ) * 2 ^ e < 2 ^ 53 * 2 ^ e := mul_lt_mul_of_pos_right (by exact_mod_cast hm) hpos
    _ = 2 ^ 52 * 2 ^ (e + 1) := by
        rw [zpow_add₀ h2]
        ring
    _ ≤ m' * 2 ^ e' := by
        refine mul_le_mul (by exact_mod_cast hm') ?_ (by positivity) (by positivity)
        exact zpow_le_zpow_right₀ (by norm_num) (by omega)

theorem compare_magnitude {m m' : ℕ} {e e' : ℤ} {s s' : Sign} {h : 0 < m} {h' : 0 < m'}
    (hc : Canonical (.finite s m e h)) (hc' : Canonical (.finite s' m' e' h')) :
    (compare e e').then (compare m m') = compare ((m : ℚ) * 2 ^ e) (m' * 2 ^ e') := by
  obtain ⟨hm, habove, hlow⟩ := hc
  obtain ⟨hm', habove', hlow'⟩ := hc'
  rcases lt_trichotomy e e' with hlt | rfl | hgt
  · rw [compare_lt_iff_lt.mpr hlt, compare_lt_iff_lt.mpr (mul_zpow_lt hm (by omega) hlt)]
    rfl
  · have hpos : (0 : ℚ) < 2 ^ e := by positivity
    rw [compare_eq_iff_eq.mpr rfl, Ordering.then]
    symm
    rw [compare_iff]
    rcases lt_trichotomy m m' with hlt | rfl | hgt
    · rw [compare_lt_iff_lt.mpr hlt]
      exact mul_lt_mul_of_pos_right (by exact_mod_cast hlt) hpos
    · rw [compare_eq_iff_eq.mpr rfl]
      rfl
    · rw [compare_gt_iff_gt.mpr hgt]
      exact mul_lt_mul_of_pos_right (by exact_mod_cast hgt) hpos
  · rw [compare_gt_iff_gt.mpr hgt, compare_gt_iff_gt.mpr (mul_zpow_lt hm' (by omega) hgt)]
    rfl

theorem compare_neg (x y : ℚ) : compare (-x) (-y) = (compare x y).swap := by
  rcases lt_trichotomy x y with h | rfl | h
  · rw [compare_lt_iff_lt.mpr h, compare_gt_iff_gt.mpr (neg_lt_neg h)]
    rfl
  · rw [compare_eq_iff_eq.mpr rfl, compare_eq_iff_eq.mpr rfl]
    rfl
  · rw [compare_gt_iff_gt.mpr h, compare_lt_iff_lt.mpr (neg_lt_neg h)]
    rfl

/-- Floats are compared like their values, by the signs of the two. -/
theorem compare_eq_compare {u v : UnpackedFloat} (hu : Canonical u) (hv : Canonical v) {x y : ℚ}
    (hx : unpackedValue u = some x) (hy : unpackedValue v = some y) :
    UnpackedFloat.compare u v = some (compare x y) := by
  rcases unpackedValue_cases hx with ⟨s, rfl, rfl⟩ | ⟨m, e, h, rfl, rfl, hpos⟩ |
    ⟨m, e, h, rfl, rfl, hneg⟩ <;>
  rcases unpackedValue_cases hy with ⟨s', rfl, rfl⟩ | ⟨m', e', h', rfl, rfl, hpos'⟩ |
    ⟨m', e', h', rfl, rfl, hneg'⟩
  · rfl
  · rw [compare_lt_iff_lt.mpr hpos']
    rfl
  · rw [compare_gt_iff_gt.mpr hneg']
    rfl
  · rw [compare_gt_iff_gt.mpr hpos]
    rfl
  · rw [UnpackedFloat.compare, compare_magnitude hu hv]
  · rw [compare_gt_iff_gt.mpr (hneg'.trans hpos)]
    rfl
  · rw [compare_lt_iff_lt.mpr hneg]
    rfl
  · rw [compare_lt_iff_lt.mpr (hneg.trans hpos')]
    rfl
  · rw [UnpackedFloat.compare, compare_magnitude hu hv, compare_neg]

/-- **Finite floats are ordered like their values.** -/
theorem le_iff {a b : Float} {x y : ℚ} (hx : value a = some x) (hy : value b = some y) :
    a ≤ b ↔ x ≤ y := by
  have hle : a ≤ b ↔ UnpackedFloat.le a.toModel.unpack b.toModel.unpack = true := by
    show a.le b = true ↔ _
    simp only [Float.le, decide_eq_true_eq]
    rfl
  rw [hle, UnpackedFloat.le, compare_eq_compare (canonical_unpack _) (canonical_unpack _) hx hy]
  simp [← compare_le_iff_le, Ordering.isLE_iff_ne_gt]

/-! ## Squares -/

/-- The float stands for the number, and its square is computed exactly. -/
def ExactSquare (a : Float) (x : ℚ) : Prop := value a = some x ∧ value (a * a) = some (x * x)

theorem ofNat_le_mul_self_iff {a : Float} {x : ℚ} (h : ExactSquare a x) {n : ℕ}
    (hn : n < 2 ^ 53) : Float.ofNat n ≤ a * a ↔ (n : ℚ) ≤ x ^ 2 := by
  rw [le_iff (value_ofNat hn) h.2, pow_two]

end BinaryFloat
