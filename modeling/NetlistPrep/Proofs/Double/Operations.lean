import NetlistPrep.Proofs.Double.Nearest

/-!
# Operations that round once

The quotient and the product of two doubles, and the double read off decimal digits, are next to the
exact result (`isNear_div`, `isNear_mul`, `isNear_ofScientific`), as long as that is not too large:
off by a rounding error at most, with no other double in between.
-/

namespace NetlistPrep.Double

open Float.Model UnpackedFloat

/-- A finite double next to a number: it is off by a rounding error at most, and there is no other
double in between. -/
structure IsNear (x : Float) (q : ℚ) : Prop where
  isFinite : x.isFinite = true
  abs_sub_le : |size x - q| ≤ roundingError q
  le_size : ∀ z : Float, size z ≤ q → size z ≤ size x

/-- Numbers up to this one do not become infinite. -/
def safeSize : ℚ := 2 ^ 1024 - 2 ^ 1004

theorem safeSize_lt : safeSize < 2 ^ 1024 := by
  rw [safeSize, sub_lt_self_iff]
  exact pow_pos (by decide) 1004

theorem leastSize_le_one : leastSize ≤ 1 := zpow_le_one_of_nonpos₀ (by decide) (by decide)

theorem IsNear.bounds {x : Float} {q : ℚ} (h : IsNear x q) :
    -(q / 2 ^ 53 + leastSize / 2) ≤ size x - q ∧ size x - q ≤ q / 2 ^ 53 + leastSize / 2 :=
  abs_le.1 h.abs_sub_le

/-- What is not too small is off by a small part of itself. -/
theorem IsNear.abs_sub_le_part {x : Float} {q : ℚ} (h : IsNear x q) (hq : 1 / 2 ^ 81 ≤ q) :
    |size x - q| ≤ q / 2 ^ 52 := by
  have hleast : leastSize / 2 ≤ 1 / 2 ^ 81 / 2 ^ 53 := by decide +kernel
  have hsmall : (1 : ℚ) / 2 ^ 81 / 2 ^ 53 ≤ q / 2 ^ 53 := by gcongr
  calc |size x - q| ≤ q / 2 ^ 53 + leastSize / 2 := h.abs_sub_le
    _ ≤ q / 2 ^ 53 + q / 2 ^ 53 := add_le_add_right (hleast.trans hsmall) _
    _ = q / 2 ^ 52 := by ring

theorem add_roundingError_lt {q : ℚ} (hq : q ≤ safeSize) : q + roundingError q < 2 ^ 1024 := by
  have hone : (1 : ℚ) ≤ 2 ^ 1004 := one_le_pow₀ (by decide)
  have hleast := leastSize_le_one
  have hsplit : (2 : ℚ) ^ 1024 = 2 ^ 20 * 2 ^ 1004 := by rw [← pow_add]
  unfold safeSize at hq
  unfold roundingError
  rw [hsplit] at hq ⊢
  clear hsplit
  generalize (2 : ℚ) ^ 1004 = p at *
  linarith

variable {x y : Float} {q : ℚ}

/-- **A result that is rounded once is next to the exact one.** -/
theorem isNear_of_round {s : Sign} {m : ℕ} {e : ℤ} {acc : Accuracy}
    (hx : x.toModel.unpack =
      (Float.Model.pack (roundWithAccuracy Format.binary64 s m e acc)).unpack)
    (h : HasDigits m e) (hlocates : Locates (.ofMantissaAndAccuracy m acc) (q / 2 ^ e))
    (hq : q ≤ safeSize) : IsNear x q := by
  have hnear := abs_magnitude_roundWithAccuracy_sub_le s h hlocates
  have hless : magnitude (roundWithAccuracy Format.binary64 s m e acc) < 2 ^ 1024 :=
    (sub_le_iff_le_add'.1 (abs_le.1 hnear).2).trans_lt (add_roundingError_lt hq)
  rw [unpack_pack ((magnitude_roundWithAccuracy s h acc).2 hless)] at hx
  refine ⟨?_, by rwa [size, hx], fun z hz => ?_⟩
  · show x.toModel.unpack.isFinite = true
    rw [hx]
    exact isFinite_roundWithAccuracy s m e acc
  · rw [size] at hz ⊢
    have hc := canonical_unpack z.toModel
    cases hu : z.toModel.unpack with
    | finite t m' e' hm' =>
      rw [hu] at hz hc
      rw [size, hx]
      exact le_magnitude_roundWithAccuracy s h hlocates hc hz
    | _ => exact size_nonneg x

theorem isNear_zero_of_unpack {s : Sign} (hx : x.toModel.unpack = .zero s) (hq : 0 ≤ q)
    (hsmall : q ≤ leastSize / 2) : IsNear x q := by
  have hzero : size x = 0 := by rw [size, hx]; rfl
  refine ⟨?_, ?_, fun z hz => ?_⟩
  · show x.toModel.unpack.isFinite = true
    rw [hx]
    rfl
  · rw [hzero, zero_sub, abs_neg, abs_of_nonneg hq, roundingError]
    have : 0 ≤ q / 2 ^ 53 := by positivity
    linarith
  · have hpos := leastSize_pos
    refine le_of_eq (size_eq_of_abs_sub_lt ?_)
    rw [hzero, sub_zero, abs_of_nonneg (size_nonneg z)]
    linarith

/-! ## Quotients -/

section Quotient

variable {m m' : ℕ}

theorem pow_le_shiftLeft_div {k j : ℕ} (hm : 0 < m) (hm' : 0 < m')
    (h : j + m'.log2 + 1 ≤ m.log2 + k) : 2 ^ j ≤ m <<< k / m' := by
  rw [Nat.le_div_iff_mul_le hm', Nat.shiftLeft_eq]
  calc 2 ^ j * m' ≤ 2 ^ j * 2 ^ (m'.log2 + 1) := Nat.mul_le_mul_left _ Nat.lt_log2_self.le
    _ = 2 ^ (j + m'.log2 + 1) := by rw [← Nat.pow_add, Nat.add_assoc]
    _ ≤ 2 ^ (m.log2 + k) := Nat.pow_le_pow_right (by decide) h
    _ = 2 ^ m.log2 * 2 ^ k := Nat.pow_add ..
    _ ≤ m * 2 ^ k := Nat.mul_le_mul_right _ (Nat.log2_self_le hm.ne')

/-- The mantissa of a quotient is long enough, and it locates the quotient. -/
theorem divCore_locates (hm : 0 < m) (hm' : 0 < m') (e e' : ℤ) :
    ∃ d low acc, divCore Format.binary64 m e m' e' = (d, low, acc) ∧ HasDigits d low ∧
      Locates (.ofMantissaAndAccuracy d acc) (m * 2 ^ e / (m' * 2 ^ e') / 2 ^ low) := by
  refine ⟨_, _, _, rfl, ?_, ?_⟩
  · simp only [targetExponent_eq, totalExponent]
    generalize hlow : min (e - e') (max (m.log2 + 1 + e - (m'.log2 + 1 + e') - 53) (-1074)) = low
    by_cases hleast : low ≤ -1074
    · exact .inr hleast
    refine .inl ?_
    have hlong := pow_le_shiftLeft_div (j := 52) (k := (e - e' - low).toNat) hm hm' (by omega)
    exact (Nat.le_log2 (by omega)).2 hlong
  · simp only [targetExponent_eq, totalExponent]
    generalize hlow : min (e - e') (max (m.log2 + 1 + e - (m'.log2 + 1 + e') - 53) (-1074)) = low
    have hexact : (m : ℚ) * 2 ^ e / (m' * 2 ^ e') / 2 ^ low =
        (m <<< (e - e' - low).toNat : ℕ) / m' := by
      have hpow : (2 : ℚ) ^ (e - e' - low).toNat = 2 ^ e / 2 ^ e' / 2 ^ low := by
        rw [← zpow_natCast, ← zpow_sub₀ (by decide), ← zpow_sub₀ (by decide)]
        congr 1
        omega
      rw [Nat.shiftLeft_eq]
      push_cast
      rw [hpow]
      field_simp
    rw [hexact]
    exact locates_quotient hm'

end Quotient

/-- **A quotient is next to the exact one.** -/
theorem isNear_div (hx : x.isFinite = true) (hy : IsNormal y.toModel.unpack)
    (hq : size x / size y ≤ safeSize) : IsNear (x / y) (size x / size y) := by
  obtain ⟨m', e', hm', hyu, -⟩ := hy.exists_eq
  have hunpack := unpack_div x y
  rw [size, size, hyu] at hq ⊢
  rw [hyu] at hunpack
  rcases finite_cases hx with ⟨s, hxu⟩ | ⟨s, m, e, hm, hxu⟩ <;> rw [hxu] at hunpack hq ⊢
  · have hzero : (x / y).toModel.unpack = .zero (s / .positive) :=
      hunpack.trans (unpack_pack (.zero _))
    have := leastSize_pos
    exact isNear_zero_of_unpack hzero (by simp [magnitude]) (by simp [magnitude]; linarith)
  · obtain ⟨d, low, acc, hcore, hdigits, hlocates⟩ := divCore_locates hm hm' e e'
    simp only [UnpackedFloat.div, hcore] at hunpack
    exact isNear_of_round hunpack hdigits hlocates hq

/-! ## Products -/

theorem hasDigits_of_le {m : ℕ} (h : 2 ^ 52 ≤ m) (e : ℤ) : HasDigits m e :=
  .inl ((Nat.le_log2 (by omega)).2 h)

theorem locates_mul (m m' : ℕ) (e e' : ℤ) :
    Locates (.ofMantissaAndAccuracy (m * m') .exact)
      ((m : ℚ) * 2 ^ e * (m' * 2 ^ e') / 2 ^ (e + e')) := by
  have hexact : (m : ℚ) * 2 ^ e * (m' * 2 ^ e') / 2 ^ (e + e') = (m * m' : ℕ) := by
    rw [zpow_add₀ (by decide)]
    push_cast
    field_simp
  rw [hexact]
  exact locates_exact _

/-- **A product is next to the exact one.** -/
theorem isNear_mul (hx : x.isFinite = true) (hy : IsNormal y.toModel.unpack)
    (hq : size x * size y ≤ safeSize) : IsNear (x * y) (size x * size y) := by
  obtain ⟨m', e', hm', hyu, hlog⟩ := hy.exists_eq
  have hunpack : (x * y).toModel.unpack = (Float.Model.pack
    (UnpackedFloat.mul Format.binary64 x.toModel.unpack y.toModel.unpack)).unpack := rfl
  rw [size, size, hyu] at hq ⊢
  rw [hyu] at hunpack
  rcases finite_cases hx with ⟨s, hxu⟩ | ⟨s, m, e, hm, hxu⟩ <;> rw [hxu] at hunpack hq ⊢
  · have hzero : (x * y).toModel.unpack = .zero (s * .positive) :=
      hunpack.trans (unpack_pack (.zero _))
    have := leastSize_pos
    exact isNear_zero_of_unpack hzero (by simp [magnitude]) (by simp [magnitude]; linarith)
  · have hlong : 2 ^ 52 ≤ m' := hlog ▸ Nat.log2_self_le hm'.ne'
    have hdigits := hasDigits_of_le (hlong.trans (Nat.le_mul_of_pos_left m' hm)) (e + e')
    exact isNear_of_round hunpack hdigits (locates_mul m m' e e') hq

/-! ## Decimal digits -/

theorem magnitude_round_of_lt {n : ℕ} (hn : 0 < n) (hlt : n < 2 ^ 53) :
    magnitude (UnpackedFloat.round Format.binary64 .positive n 0) = n ∧
      Canonical (UnpackedFloat.round Format.binary64 .positive n 0) := by
  have hlog := log2_le_of_lt_two_pow hlt
  have hshift : (0 - Format.binary64.targetExponent (totalExponent n 0)).toNat = 52 - n.log2 := by
    rw [targetExponent_eq, totalExponent]
    omega
  generalize hm : n <<< (52 - n.log2) = m
  have hmn : m = n * 2 ^ (52 - n.log2) := by rw [← hm, Nat.shiftLeft_eq]
  have hlow : 2 ^ 52 ≤ m := by
    calc 2 ^ 52 = 2 ^ n.log2 * 2 ^ (52 - n.log2) := by rw [← Nat.pow_add]; congr 1; omega
      _ ≤ m := hmn ▸ Nat.mul_le_mul_right _ (Nat.log2_self_le hn.ne')
  have hhigh : m < 2 ^ 53 := by
    calc m < 2 ^ (n.log2 + 1) * 2 ^ (52 - n.log2) :=
          hmn ▸ Nat.mul_lt_mul_of_pos_right Nat.lt_log2_self (Nat.two_pow_pos _)
      _ = 2 ^ 53 := by rw [← Nat.pow_add]; congr 1; omega
  have hdigits : HasDigits m (0 - (52 - n.log2 : ℕ)) :=
    .inl ((Nat.le_log2 (by omega)).2 hlow)
  have hmagnitude := magnitude_roundWithAccuracy .positive hdigits .exact
  rw [shiftToTargetExponent_of_lt hhigh (by omega)] at hmagnitude
  have hround : UnpackedFloat.round Format.binary64 .positive n 0 =
      roundWithAccuracy Format.binary64 .positive m (0 - (52 - n.log2 : ℕ)) .exact := by
    unfold UnpackedFloat.round decreaseExponent
    simp only [hshift, hm]
  have hvalue : (m : ℚ) * 2 ^ (0 - (52 - n.log2 : ℕ) : ℤ) = n := by
    rw [zero_sub, zpow_neg, zpow_natCast, hmn]
    push_cast
    field_simp
  rw [hround]
  rw [hmagnitude.1]
  refine ⟨hvalue, hmagnitude.2 ?_⟩
  rw [hmagnitude.1]
  refine hvalue.trans_lt (lt_trans (b := 2 ^ 53) ?_ (pow_lt_pow_right₀ (by decide) (by decide)))
  exact_mod_cast hlt

/-- A whole number of 53 binary digits is a double. -/
theorem size_toFloat {n : UInt64} (hlt : n.toNat < 2 ^ 53) :
    n.toFloat.isFinite = true ∧ size n.toFloat = n.toNat := by
  have hunpack : n.toFloat.toModel.unpack = (Float.Model.pack
    (UnpackedFloat.normalize Format.binary64 n.toNat 0 .positive)).unpack := rfl
  by_cases hzero : n.toNat = 0
  · have hnormalize : UnpackedFloat.normalize Format.binary64 (n.toNat : ℤ) 0 .positive =
        .zero .positive := by rw [hzero]; rfl
    rw [hnormalize, unpack_pack (.zero _)] at hunpack
    refine ⟨?_, by rw [size, hunpack, hzero]; rfl⟩
    show n.toFloat.toModel.unpack.isFinite = true
    rw [hunpack]
    rfl
  · have hpos := Nat.pos_of_ne_zero hzero
    obtain ⟨hmagnitude, hcanonical⟩ := magnitude_round_of_lt hpos hlt
    have hnormalize : UnpackedFloat.normalize Format.binary64 (n.toNat : ℤ) 0 .positive =
        UnpackedFloat.round Format.binary64 .positive n.toNat 0 := by
      unfold UnpackedFloat.normalize
      rw [Int.compare_eq_gt.2 (by omega), Int.toNat_natCast]
    rw [hnormalize, unpack_pack hcanonical] at hunpack
    have hsize : size n.toFloat = n.toNat := by rw [size, hunpack, hmagnitude]
    exact ⟨isFinite_of_size_pos (by rw [hsize]; exact_mod_cast hpos), hsize⟩

/-- The powers of ten that are doubles are these powers of ten. -/
theorem size_powerOfTen {e : ℕ} (h : e < Float.exactlyRepresentablePowersOfTen.size) :
    size Float.exactlyRepresentablePowersOfTen[e] = 10 ^ e := by
  have hall : ∀ e : Fin 23, size Float.exactlyRepresentablePowersOfTen[e] = 10 ^ (e : ℕ) := by
    decide +kernel
  exact hall ⟨e, h⟩

theorem zpow_ten_of_neg {scale : ℤ} (h : scale < 0) :
    (10 : ℚ) ^ scale = (10 ^ scale.natAbs)⁻¹ := by
  rw [← zpow_natCast, ← zpow_neg]
  congr 1
  omega

theorem zpow_ten_of_nonneg {scale : ℤ} (h : 0 ≤ scale) :
    (10 : ℚ) ^ scale = 10 ^ scale.natAbs := by
  rw [← zpow_natCast]
  congr 1
  omega

variable {m : ℕ} {scale : ℤ}

/-- Few digits and a small power of ten are doubles, so that only one rounding is left. -/
theorem isNear_ofScientific_of_lt (hm : m < 2 ^ 53) (hscale : scale.natAbs ≤ 22)
    (hq : (m : ℚ) * 10 ^ scale ≤ safeSize) :
    IsNear (Float.ofScientific m (scale < 0) scale.natAbs) (m * 10 ^ scale) := by
  have hnat : m.toUInt64.toNat = m := UInt64.toNat_ofNat_of_lt (hm.trans (by decide))
  obtain ⟨hfinite, hsize⟩ := size_toFloat (n := m.toUInt64) (by rwa [hnat])
  rw [hnat] at hsize
  have hindex : scale.natAbs < Float.exactlyRepresentablePowersOfTen.size :=
    Nat.lt_succ_of_le hscale
  have hten := size_powerOfTen hindex
  have hnormal := isNormal_powerOfTen hindex
  unfold Float.ofScientific
  rw [dif_pos ⟨hm, hscale⟩]
  by_cases hneg : scale < 0
  · rw [zpow_ten_of_neg hneg, ← div_eq_mul_inv, ← hsize, ← hten] at hq ⊢
    simp only [hneg, decide_true, if_true]
    exact isNear_div hfinite hnormal hq
  · rw [zpow_ten_of_nonneg (by omega), ← hsize, ← hten] at hq ⊢
    simp only [hneg, decide_false, Bool.false_eq_true, if_false]
    exact isNear_mul hfinite hnormal hq

/-- A power of ten that is not even tried is too large. -/
theorem safeSize_lt_zpow (hm : 0 < m) (hscale : 2 ^ 11 < scale) :
    safeSize < m * 10 ^ scale := by
  have hten : (10 : ℚ) ^ (2 ^ 11 : ℕ) ≤ 10 ^ scale := by
    rw [← zpow_natCast]
    exact zpow_le_zpow_right₀ (by decide) (by exact_mod_cast hscale.le)
  have hone : (1 : ℚ) ≤ m := by exact_mod_cast hm
  calc safeSize < (2 : ℚ) ^ 1024 := safeSize_lt
    _ ≤ 2 ^ 2 ^ 11 := pow_le_pow_right₀ (by decide) (by decide)
    _ ≤ 10 ^ (2 ^ 11 : ℕ) := pow_le_pow_left₀ (by decide) (by decide) _
    _ ≤ 1 * 10 ^ scale := by rwa [one_mul]
    _ ≤ m * 10 ^ scale := by gcongr

/-- A power of ten that is not even tried is too small. -/
theorem zpow_le_half_leastSize (hscale : scale < -(2 ^ 11 + m.log2)) :
    (m : ℚ) * 10 ^ scale ≤ leastSize / 2 := by
  have hm : (m : ℚ) ≤ 2 ^ ((m.log2 + 1 : ℕ) : ℤ) := by
    rw [zpow_natCast]
    exact_mod_cast Nat.lt_log2_self.le
  have hten : (10 : ℚ) ^ scale ≤ 2 ^ scale := by
    have hinv : (2 : ℚ) ^ (-scale) ≤ 10 ^ (-scale) :=
      zpow_le_zpow_left₀ (by omega) (by decide) (by decide)
    rwa [zpow_neg, zpow_neg,
      inv_le_inv₀ (zpow_pos (by decide) _) (zpow_pos (by decide) _)] at hinv
  calc (m : ℚ) * 10 ^ scale ≤ 2 ^ ((m.log2 + 1 : ℕ) : ℤ) * 2 ^ scale := by gcongr
    _ = 2 ^ ((m.log2 + 1 : ℕ) + scale) := (zpow_add₀ (by decide) _ _).symm
    _ ≤ 2 ^ (-1074 - 1 : ℤ) := zpow_le_zpow_right₀ (by decide) (by push_cast; omega)
    _ = leastSize / 2 := by rw [zpow_sub_one₀ (by decide), leastSize, div_eq_mul_inv]

/-- A power of ten is multiplied exactly, and the product has digits enough. -/
theorem locates_mul_pow_ten (hm : 0 < m) (hscale : 0 ≤ scale) :
    HasDigits (m <<< 53 * 10 ^ scale.toNat) (-53 + 0) ∧
      Locates (.ofMantissaAndAccuracy (m <<< 53 * 10 ^ scale.toNat) .exact)
        ((m : ℚ) * 10 ^ scale / 2 ^ (-53 + 0 : ℤ)) := by
  constructor
  · refine hasDigits_of_le ?_ _
    calc 2 ^ 52 ≤ 1 * 2 ^ 53 := by decide
      _ ≤ m <<< 53 := by rw [Nat.shiftLeft_eq]; exact Nat.mul_le_mul_right _ hm
      _ ≤ m <<< 53 * 10 ^ scale.toNat := Nat.le_mul_of_pos_right _ (Nat.pow_pos (by decide))
  · have hexact : ((m <<< 53 : ℕ) : ℚ) * 2 ^ (-53 : ℤ) * ((10 ^ scale.toNat : ℕ) * 2 ^ (0 : ℤ)) =
        m * 10 ^ scale := by
      rw [Nat.shiftLeft_eq, ← Int.toNat_of_nonneg hscale, zpow_natCast, Int.toNat_natCast]
      push_cast
      norm_num [mul_assoc]
    rw [← hexact]
    exact locates_mul (m <<< 53) (10 ^ scale.toNat) (-53) 0

/-- A power of ten is divided by with digits enough. -/
theorem divCore_pow_ten (hm : 0 < m) (hscale : scale < 0) :
    ∃ d low acc, divCore Format.binary64 m 0 (10 ^ (-scale).toNat) 0 = (d, low, acc) ∧
      HasDigits d low ∧ Locates (.ofMantissaAndAccuracy d acc) (m * 10 ^ scale / 2 ^ low) := by
  have hexact : (m : ℚ) * 2 ^ (0 : ℤ) / ((10 ^ (-scale).toNat : ℕ) * 2 ^ (0 : ℤ)) =
      m * 10 ^ scale := by
    have habs : scale.natAbs = (-scale).toNat := by omega
    rw [zpow_ten_of_neg hscale, habs, div_eq_mul_inv]
    simp
  rw [← hexact]
  exact divCore_locates hm (Nat.pow_pos (by decide)) 0 0

theorem isNear_ofScientific_of_not_lt (hlarge : ¬ (m < 2 ^ 53 ∧ scale.natAbs ≤ 22))
    (hq : (m : ℚ) * 10 ^ scale ≤ safeSize) :
    IsNear (Float.ofScientific m (scale < 0) scale.natAbs) (m * 10 ^ scale) := by
  have hexponent : (if decide (scale < 0) = true then Int.negOfNat scale.natAbs
      else Int.ofNat scale.natAbs) = scale := by
    by_cases hneg : scale < 0
    · rw [if_pos (decide_eq_true hneg), Int.negOfNat_eq, Int.ofNat_eq_natCast]
      omega
    · rw [if_neg (by simpa using hneg), Int.ofNat_eq_natCast]
      omega
  unfold Float.ofScientific
  rw [dif_neg hlarge]
  simp only [hexponent]
  have hunpack : (Float.ofModel (Float.Model.ofScientific m scale)).toModel.unpack =
    (Float.Model.pack (UnpackedFloat.ofScientific Format.binary64 m scale)).unpack := rfl
  unfold UnpackedFloat.ofScientific at hunpack
  by_cases hzero : m = 0
  · subst hzero
    have := leastSize_pos
    rw [dif_pos rfl, unpack_pack (.zero _)] at hunpack
    exact isNear_zero_of_unpack hunpack (by simp) (by simp; linarith)
  have hm := Nat.pos_of_ne_zero hzero
  by_cases hhigh : 2 ^ 11 < scale
  · exact absurd hq (not_le.2 (safeSize_lt_zpow hm hhigh))
  rw [dif_neg hzero, if_neg hhigh] at hunpack
  by_cases hlow : scale < -(2 ^ 11 + m.log2)
  · rw [if_pos hlow, unpack_pack (.zero _)] at hunpack
    exact isNear_zero_of_unpack hunpack (by positivity) (zpow_le_half_leastSize hlow)
  rw [if_neg hlow] at hunpack
  by_cases hnonneg : 0 ≤ scale
  · rw [if_pos hnonneg] at hunpack
    obtain ⟨hdigits, hlocates⟩ := locates_mul_pow_ten hm hnonneg
    exact isNear_of_round hunpack hdigits hlocates hq
  · rw [if_neg hnonneg] at hunpack
    obtain ⟨d, low, acc, hcore, hdigits, hlocates⟩ := divCore_pow_ten hm (Int.not_le.1 hnonneg)
    simp only [UnpackedFloat.div, hcore] at hunpack
    exact isNear_of_round hunpack hdigits hlocates hq

/-- **A double that is read off decimal digits is next to their number.** -/
theorem isNear_ofScientific (hq : (m : ℚ) * 10 ^ scale ≤ safeSize) :
    IsNear (Float.ofScientific m (scale < 0) scale.natAbs) (m * 10 ^ scale) := by
  by_cases h : m < 2 ^ 53 ∧ scale.natAbs ≤ 22
  · exact isNear_ofScientific_of_lt h.1 h.2 hq
  · exact isNear_ofScientific_of_not_lt h hq

end NetlistPrep.Double
