import NetlistPrep.Proofs.Double.Operations
import NetlistPrep.Proofs.Double.Order

/-!
# Quotients that vanish

A finite double divided by a positive one keeps its sign (`sign?_div_of_pos`), but the quotient may
round to zero. It does so if and only if the divisor is infinite or the exact quotient is no more
than half the least size (`isZero_div_iff`); a tie goes to zero, since zero is even. So a negative
double has quotients by positive ones that are not below zero (`div_lt_zero_iff`).
-/

namespace NetlistPrep.Double

open Float.Model UnpackedFloat

/-! ## Rounding to zero -/

section Round

variable {em : ExtendedMantissa} {s : Sign} {m : ℕ} {e : ℤ} {acc : Accuracy} {q : ℚ}

/-- Up to half a place is rounded to none; the tie goes to the even one. -/
theorem Locates.roundedMantissa_eq_zero_iff (h : Locates em q) :
    em.roundedMantissa = 0 ↔ q ≤ 1 / 2 := by
  obtain ⟨m, r, t⟩ := em
  rcases Nat.eq_zero_or_pos m with rfl | hm
  · cases r <;> cases t <;>
      simp [Locates, ExtendedMantissa.roundedMantissa, ExtendedMantissa.accuracy,
        Accuracy.roundToNearestEven] at h ⊢ <;> linarith
  · -- From one on neither the rounded mantissa nor the number is below the mantissa.
    have hone : (1 : ℚ) ≤ m := by exact_mod_cast hm
    have hle : (m : ℚ) ≤ q := h.le
    have hrounded := mantissa_le_roundedMantissa ⟨m, r, t⟩
    simp only at hrounded
    constructor
    · omega
    · intro hq
      linarith

theorem isZero_iff_magnitude_eq {u : UnpackedFloat} (h : u.isFinite = true) :
    IsZero u ↔ magnitude u = 0 := by
  cases u with
  | notANumber | infinity => exact absurd h (by simp [UnpackedFloat.isFinite])
  | zero s => exact iff_of_true ⟨s, rfl⟩ rfl
  | finite s m e hm =>
    exact iff_of_false (not_isZero_finite s e hm) (magnitude_finite_pos s e hm).ne'

/-- **What is rounded to zero** is half the least size at most. -/
theorem isZero_roundWithAccuracy_iff (s : Sign) (h : HasDigits m e)
    (hq : Locates (.ofMantissaAndAccuracy m acc) (q / 2 ^ e)) :
    IsZero (roundWithAccuracy Format.binary64 s m e acc) ↔ q ≤ leastSize / 2 := by
  have hround := (locates_shiftToTargetExponent hq).roundedMantissa_eq_zero_iff
  have hdigits := h.le_roundedMantissa acc
  have hexponent := h.exponent_eq acc
  rw [isZero_iff_magnitude_eq (isFinite_roundWithAccuracy s m e acc),
    (magnitude_roundWithAccuracy s h acc).1]
  generalize shiftToTargetExponent Format.binary64 m e acc = first at *
  obtain ⟨em, e₁⟩ := first
  simp only at hround hdigits hexponent ⊢
  have hpow : (0 : ℚ) < 2 ^ e₁ := zpow_pos (by decide) e₁
  rw [div_le_iff₀ hpow] at hround
  rw [mul_eq_zero, or_iff_left hpow.ne', Nat.cast_eq_zero]
  constructor
  · intro hzero
    obtain rfl : e₁ = -1074 := hdigits.resolve_left (by omega)
    calc q ≤ 1 / 2 * leastSize := hround.1 hzero
      _ = leastSize / 2 := by ring
  · intro hsmall
    have hleast : leastSize ≤ 2 ^ e₁ := zpow_le_zpow_right₀ (by decide) (by omega)
    exact hround.2 (by linarith)

/-- What is rounded is packed as zero only if it is zero: what is too large becomes infinite. -/
theorem isZero_unpack_pack_iff (s : Sign) (h : HasDigits m e) (acc : Accuracy) :
    IsZero (Float.Model.pack (roundWithAccuracy Format.binary64 s m e acc)).unpack ↔
      IsZero (roundWithAccuracy Format.binary64 s m e acc) := by
  rcases lt_or_ge (magnitude (roundWithAccuracy Format.binary64 s m e acc)) (2 ^ 1024) with
    hless | hlarge
  · rw [unpack_pack ((magnitude_roundWithAccuracy s h acc).2 hless)]
  rcases roundWithAccuracy_cases s m e acc with hzero | ⟨m', e', hm', hround, -⟩
  · rw [hzero, unpack_pack (.zero s)]
  · have hm := mantissa_roundWithAccuracy_lt hround
    rw [hround] at hlarge ⊢
    have he : 971 < e' :=
      Int.not_le.1 fun he => absurd hlarge (not_le.2 (magnitude_lt s hm' hm he))
    have hpack : (Float.Model.pack (.finite s m' e' hm')).unpack = .infinity s := by
      rw [unpack_pack_eq, pack_finite, if_pos he, unpack_packComponents, if_pos rfl, if_pos rfl]
    rw [hpack]
    exact iff_of_false (not_isZero_infinity s) (not_isZero_finite s e' hm')

end Round

/-! ## Quotients by positive doubles -/

variable {x y : Float}

theorem IsZero.unpack_pack {u : UnpackedFloat} (h : IsZero u) :
    IsZero (Float.Model.pack u).unpack := by
  obtain ⟨s, rfl⟩ := h
  exact ⟨s, Double.unpack_pack (.zero s)⟩

/-- **A quotient by a positive double vanishes** where the divisor is infinite or the exact quotient
is no more than half the least size, and nowhere else. -/
theorem isZero_div_iff (hx : x.isFinite = true) (hy : 0 < y) :
    IsZero (x / y).toModel.unpack ↔ y.isFinite = false ∨ size x ≤ leastSize / 2 * size y := by
  rw [unpack_div, size, size]
  show _ ↔ y.toModel.unpack.isFinite = false ∨ _
  have hleast := leastSize_pos
  rcases exists_of_pos hy with hyu | ⟨m', e', hm', hyu⟩ <;> rw [hyu]
  · refine iff_of_true (IsZero.unpack_pack ?_) (.inl rfl)
    rcases finite_cases hx with ⟨s, hxu⟩ | ⟨s, m, e, hm, hxu⟩ <;> rw [hxu] <;> exact ⟨_, rfl⟩
  · have hpos := magnitude_finite_pos .positive e' hm'
    rcases finite_cases hx with ⟨s, hxu⟩ | ⟨s, m, e, hm, hxu⟩ <;> rw [hxu]
    · refine iff_of_true (IsZero.unpack_pack ⟨_, rfl⟩) (.inr ?_)
      show 0 ≤ _
      positivity
    · obtain ⟨d, low, acc, hcore, hdigits, hlocates⟩ := divCore_locates hm hm' e e'
      simp only [UnpackedFloat.div, hcore]
      rw [isZero_unpack_pack_iff _ hdigits, isZero_roundWithAccuracy_iff _ hdigits hlocates]
      rw [← div_le_iff₀ hpos]
      simp [magnitude, UnpackedFloat.isFinite]

/-- **A quotient by a positive double is below zero** if the dividend is and the quotient does not
vanish. -/
theorem div_lt_zero_iff (hx : x.isFinite = true) (hy : 0 < y) :
    x / y < 0 ↔ x < 0 ∧ y.isFinite = true ∧ leastSize / 2 * size y < size x := by
  have hvanish := isZero_div_iff hx hy
  have hzero : IsZero x.toModel.unpack → IsZero (x / y).toModel.unpack := by
    rintro ⟨s, hs⟩
    have hsize : size x = 0 := by rw [size, hs]; rfl
    have hleast := leastSize_pos
    have hnonneg := size_nonneg y
    exact hvanish.2 (.inr (by rw [hsize]; positivity))
  rw [lt_zero_iff, lt_zero_iff, sign?_div_of_pos hx hy, ← not_le, ← Bool.not_eq_false, ← not_or,
    ← hvanish]
  tauto

end NetlistPrep.Double
