import NetlistPrep.Proofs.Double.Magnitude

/-!
# Rounding to the nearest double

Arithmetic on doubles is exact arithmetic with one rounding at the end. A mantissa with its two
residual bits locates an exact number (`Locates`), and it does so still when digits are shifted out
(`Locates.shiftRight`). So the rounded result is off by half a last place at most
(`abs_magnitude_roundWithAccuracy_sub_le`), and rounding passes no double
(`le_magnitude_roundWithAccuracy`).
-/

namespace NetlistPrep.Double

open Float.Model UnpackedFloat

/-! ## Residual bits -/

/-- A mantissa with its residual bits locates a number, which is counted in last places: on the
mantissa, between it and half a place more, on the half, or beyond. -/
def Locates : ExtendedMantissa → ℚ → Prop
  | ⟨m, false, false⟩, q => q = m
  | ⟨m, false, true⟩, q => m < q ∧ q < m + 1 / 2
  | ⟨m, true, false⟩, q => q = m + 1 / 2
  | ⟨m, true, true⟩, q => m + 1 / 2 < q ∧ q < m + 1

variable {em : ExtendedMantissa} {q : ℚ}

theorem Locates.shiftRightOne (h : Locates em q) : Locates em.shiftRightOne (q / 2) := by
  obtain ⟨m, r, s⟩ := em
  rcases Nat.even_or_odd' m with ⟨k, rfl | rfl⟩ <;> cases r <;> cases s <;>
    simp [Locates, ExtendedMantissa.shiftRightOne, Nat.add_div] at h ⊢ <;>
    first | linarith | constructor <;> linarith

/-- **Shifting digits out** keeps the number where it is. -/
theorem Locates.shiftRight (h : Locates em q) (k : ℕ) : Locates (em >>> k) (q / 2 ^ k) := by
  induction k with
  | zero =>
    rw [pow_zero, div_one]
    exact h
  | succ k ih =>
    rw [pow_succ, ← div_div]
    exact ih.shiftRightOne

theorem Locates.le (h : Locates em q) : em.mantissa ≤ q := by
  obtain ⟨m, r, s⟩ := em
  cases r <;> cases s <;> simp only [Locates] at h <;> linarith

theorem Locates.lt (h : Locates em q) : q < em.mantissa + 1 := by
  obtain ⟨m, r, s⟩ := em
  cases r <;> cases s <;> simp only [Locates] at h <;> linarith

theorem Locates.abs_roundedMantissa_sub_le (h : Locates em q) :
    |(em.roundedMantissa : ℚ) - q| ≤ 1 / 2 := by
  obtain ⟨m, r, s⟩ := em
  rw [abs_le]
  cases r <;> cases s <;>
    simp only [Locates, ExtendedMantissa.roundedMantissa, ExtendedMantissa.accuracy,
      Accuracy.roundToNearestEven] at h ⊢
  · constructor <;> linarith
  · constructor <;> linarith
  · have hparity : (m : ℚ) + (m % 2 : ℕ) ≤ m + 1 ∧ (m : ℚ) ≤ m + (m % 2 : ℕ) := by
      constructor
      · exact_mod_cast (by omega : m + m % 2 ≤ m + 1)
      · exact_mod_cast Nat.le_add_right m _
    push_cast
    constructor <;> linarith
  · push_cast
    constructor <;> linarith

theorem locates_exact (m : ℕ) : Locates (.ofMantissaAndAccuracy m .exact) m := rfl

/-- The digits of a quotient with what is left locate the quotient. -/
theorem locates_quotient {m d : ℕ} (hd : 0 < d) :
    Locates (.ofMantissaAndAccuracy (m / d) (accuracyOfFraction (m % d) d)) (m / d) := by
  have hdq : (0 : ℚ) < d := Nat.cast_pos.2 hd
  have hsplit : (m : ℚ) / d = (m / d : ℕ) + (m % d : ℕ) / d := by
    rw [div_eq_iff hdq.ne', add_mul, div_mul_cancel₀ _ hdq.ne']
    exact_mod_cast (Nat.div_add_mod' m d).symm
  have hlt : ((m % d : ℕ) : ℚ) / d < 1 := by
    rw [div_lt_one hdq]
    exact_mod_cast Nat.mod_lt m hd
  rw [hsplit]
  unfold accuracyOfFraction
  split
  · rename_i hzero
    rw [hzero]
    simp [Locates, ExtendedMantissa.ofMantissaAndAccuracy]
  · rename_i hne
    have hpos : (0 : ℚ) < (m % d : ℕ) / d := div_pos (Nat.cast_pos.2 (by omega)) hdq
    rcases Nat.lt_trichotomy (2 * (m % d)) d with hhalf | hhalf | hhalf
    · rw [compare_lt_iff_lt.2 hhalf]
      have : ((m % d : ℕ) : ℚ) / d < 1 / 2 := by
        rw [div_lt_div_iff₀ hdq two_pos, mul_comm, one_mul]
        exact_mod_cast hhalf
      constructor <;> linarith
    · rw [compare_eq_iff_eq.2 hhalf]
      have : ((m % d : ℕ) : ℚ) / d = 1 / 2 := by
        rw [div_eq_div_iff hdq.ne' two_ne_zero, mul_comm, one_mul]
        exact_mod_cast hhalf
      show _ = _
      linarith
    · rw [compare_gt_iff_gt.2 hhalf]
      have : (1 : ℚ) / 2 < (m % d : ℕ) / d := by
        rw [div_lt_div_iff₀ two_pos hdq, mul_comm, mul_comm _ (2 : ℚ), mul_one]
        exact_mod_cast hhalf
      constructor <;> linarith

/-! ## Shifting to the exponent of a double -/

section Shift

variable {m : ℕ} {e : ℤ} {acc : Accuracy} {q : ℚ}

theorem locates_shiftToTargetExponent (h : Locates (.ofMantissaAndAccuracy m acc) (q / 2 ^ e)) :
    Locates (shiftToTargetExponent Format.binary64 m e acc).1
      (q / 2 ^ (shiftToTargetExponent Format.binary64 m e acc).2) := by
  generalize hk : (Format.binary64.targetExponent (totalExponent m e) - e).toNat = k
  have hshifted := h.shiftRight k
  rw [div_div, ← zpow_natCast, ← zpow_add₀ (by decide)] at hshifted
  simpa only [shiftToTargetExponent, shiftToExponent, hk] using hshifted

theorem log2_le_of_lt_two_pow {r : ℕ} (hr : r < 2 ^ 53) : r.log2 ≤ 52 := by
  by_cases h : r = 0
  · simp [h]
  · exact Nat.le_of_lt_succ ((Nat.log2_lt h).2 hr)

/-- A mantissa that is not too long stays as it is. -/
theorem shiftToTargetExponent_of_lt {r : ℕ} (hr : r < 2 ^ 53) (he : -1074 ≤ e) :
    shiftToTargetExponent Format.binary64 r e .exact = (⟨r, false, false⟩, e) := by
  have hlog := log2_le_of_lt_two_pow hr
  have hnone : (Format.binary64.targetExponent (totalExponent r e) - e).toNat = 0 := by
    rw [targetExponent_eq, totalExponent]
    omega
  simp only [shiftToTargetExponent, shiftToExponent, hnone]
  exact Prod.ext rfl (by simp)

/-- A mantissa that rounding made too long loses one digit. -/
theorem shiftToTargetExponent_two_pow (he : -1074 ≤ e) :
    shiftToTargetExponent Format.binary64 (2 ^ 53) e .exact = (⟨2 ^ 52, false, false⟩, e + 1) := by
  have hone : (Format.binary64.targetExponent (totalExponent (2 ^ 53) e) - e).toNat = 1 := by
    rw [targetExponent_eq, totalExponent, Nat.log2_two_pow]
    omega
  simp only [shiftToTargetExponent, shiftToExponent, hone]
  exact Prod.ext rfl (by simp)

/-- There are enough digits to round. -/
def HasDigits (m : ℕ) (e : ℤ) : Prop := 52 ≤ m.log2 ∨ e ≤ -1074

theorem HasDigits.exponent_eq (h : HasDigits m e) (acc : Accuracy) :
    (shiftToTargetExponent Format.binary64 m e acc).2 = max (totalExponent m e - 53) (-1074) := by
  rw [shiftToTargetExponent_snd]
  unfold HasDigits at h
  simp only [totalExponent]
  omega

theorem mantissa_le_roundedMantissa (em : ExtendedMantissa) :
    em.mantissa ≤ em.roundedMantissa := by
  obtain ⟨m, r, s⟩ := em
  cases r <;> cases s <;> simp [ExtendedMantissa.roundedMantissa, ExtendedMantissa.accuracy,
    Accuracy.roundToNearestEven]

/-- What is left after the shift has 53 digits at most. -/
theorem mantissa_shiftToTargetExponent_lt (m : ℕ) (e : ℤ) (acc : Accuracy) :
    (shiftToTargetExponent Format.binary64 m e acc).1.mantissa < 2 ^ 53 := by
  rw [mantissa_shiftToTargetExponent, shiftToTargetExponent_snd,
    Nat.div_lt_iff_lt_mul (Nat.two_pow_pos _), ← Nat.pow_add]
  refine Nat.lt_of_lt_of_le Nat.lt_log2_self (Nat.pow_le_pow_right (by decide) ?_)
  simp only [totalExponent]
  omega

theorem mantissa_roundWithAccuracy_lt {s t : Sign} {m' : ℕ} {e' : ℤ} {hm' : 0 < m'}
    (h : roundWithAccuracy Format.binary64 s m e acc = .finite t m' e' hm') : m' < 2 ^ 53 := by
  unfold roundWithAccuracy at h
  simp only at h
  split at h
  · cases h
  · obtain ⟨-, rfl, -⟩ := UnpackedFloat.finite.inj h
    exact mantissa_shiftToTargetExponent_lt _ _ _

/-- What is left after the shift rounds to a mantissa of 53 digits or to the next power of two. -/
theorem roundedMantissa_shiftToTargetExponent_le (m : ℕ) (e : ℤ) (acc : Accuracy) :
    (shiftToTargetExponent Format.binary64 m e acc).1.roundedMantissa ≤ 2 ^ 53 :=
  (roundedMantissa_le _).trans (mantissa_shiftToTargetExponent_lt m e acc)

/-- It has no fewer digits, unless the exponent is the least one. -/
theorem HasDigits.le_roundedMantissa (h : HasDigits m e) (acc : Accuracy) :
    2 ^ 52 ≤ (shiftToTargetExponent Format.binary64 m e acc).1.roundedMantissa ∨
      (shiftToTargetExponent Format.binary64 m e acc).2 = -1074 := by
  by_cases hleast : (shiftToTargetExponent Format.binary64 m e acc).2 = -1074
  · exact .inr hleast
  refine .inl (Nat.le_trans ?_ (mantissa_le_roundedMantissa _))
  rw [mantissa_shiftToTargetExponent, Nat.le_div_iff_mul_le (Nat.two_pow_pos _), ← Nat.pow_add]
  have hexponent := h.exponent_eq acc
  unfold HasDigits at h
  rw [totalExponent] at hexponent
  have hm : m ≠ 0 := by
    rintro rfl
    simp at h hexponent
    omega
  refine Nat.le_trans (Nat.pow_le_pow_right (by decide) ?_) (Nat.log2_self_le hm)
  omega

end Shift

/-! ## Rounding -/

/-- How far a double next to a number may be off. -/
def roundingError (q : ℚ) : ℚ := q / 2 ^ 53 + leastSize / 2

section Round

variable {s : Sign} {m : ℕ} {e : ℤ} {acc : Accuracy} {q : ℚ}

/-- A form with all its digits that is not too large is canonical. -/
theorem canonical_of_magnitude_lt {r : ℕ} {e : ℤ} (s : Sign) (hr : 0 < r) (hlow : 2 ^ 52 ≤ r)
    (hhigh : r < 2 ^ 53) (he : -1074 ≤ e) (h : magnitude (.finite s r e hr) < 2 ^ 1024) :
    Canonical (.finite s r e hr) := by
  refine .normal s hr hlow hhigh he (Int.not_lt.1 fun hlarge => absurd h (not_lt.2 ?_))
  have hmantissa : (2 : ℚ) ^ 52 ≤ (r : ℚ) := by exact_mod_cast hlow
  calc (2 : ℚ) ^ 1024 = 2 ^ 52 * 2 ^ ((972 : ℕ) : ℤ) := by rw [zpow_natCast, ← pow_add]
    _ ≤ (r : ℚ) * 2 ^ e := by
      gcongr
      · decide
      · exact hlarge

/-- **Rounding in one step.** The result is what is left after the shift, rounded; and it is a
double unless it is too large. -/
theorem magnitude_roundWithAccuracy (s : Sign) (h : HasDigits m e) (acc : Accuracy) :
    magnitude (roundWithAccuracy Format.binary64 s m e acc) =
        (shiftToTargetExponent Format.binary64 m e acc).1.roundedMantissa *
          2 ^ (shiftToTargetExponent Format.binary64 m e acc).2 ∧
      (magnitude (roundWithAccuracy Format.binary64 s m e acc) < 2 ^ 1024 →
        Canonical (roundWithAccuracy Format.binary64 s m e acc)) := by
  have hhigh := roundedMantissa_shiftToTargetExponent_le m e acc
  have hlow := h.le_roundedMantissa acc
  have hexponent := h.exponent_eq acc
  unfold roundWithAccuracy
  generalize shiftToTargetExponent Format.binary64 m e acc = first at *
  obtain ⟨em, e₁⟩ := first
  simp only at hhigh hlow hexponent ⊢
  generalize em.roundedMantissa = r at *
  have he : -1074 ≤ e₁ := by omega
  rcases Nat.lt_or_eq_of_le hhigh with hlt | rfl
  · simp only [shiftToTargetExponent_of_lt hlt he]
    by_cases hzero : r = 0
    · subst hzero
      exact ⟨by simp [magnitude], fun _ => .zero s⟩
    · rw [dif_neg hzero]
      refine ⟨rfl, fun hmagnitude => ?_⟩
      by_cases hdigits : 2 ^ 52 ≤ r
      · exact canonical_of_magnitude_lt s _ hdigits hlt he hmagnitude
      · obtain rfl : e₁ = -1074 := hlow.resolve_left hdigits
        exact .subnormal s _ (Nat.lt_of_not_le hdigits)
  · simp only [shiftToTargetExponent_two_pow he]
    rw [dif_neg (by decide)]
    refine ⟨?_, canonical_of_magnitude_lt s (by decide) le_rfl (by decide) (by omega)⟩
    rw [magnitude, zpow_add_one₀ (by decide)]
    push_cast
    ring

/-- Half a last place is small beside a number that has all its digits, and otherwise it is half the
least size. -/
theorem half_place_le (h : HasDigits m e)
    (hq : Locates (.ofMantissaAndAccuracy m acc) (q / 2 ^ e)) :
    (2 : ℚ) ^ (shiftToTargetExponent Format.binary64 m e acc).2 / 2 ≤ roundingError q := by
  have hpow : (0 : ℚ) < 2 ^ e := zpow_pos (by decide) e
  have hleast := leastSize_pos
  have hmantissa : (m : ℚ) * 2 ^ e ≤ q := by
    have := hq.le
    rwa [mantissa_ofMantissaAndAccuracy, le_div_iff₀ hpow] at this
  have hnonneg : 0 ≤ q := le_trans (by positivity) hmantissa
  have hexponent := h.exponent_eq acc
  generalize (shiftToTargetExponent Format.binary64 m e acc).2 = e₁ at *
  rw [totalExponent] at hexponent
  unfold roundingError
  by_cases hend : e₁ = -1074
  · have : 0 ≤ q / 2 ^ 53 := by positivity
    rw [hend, leastSize]
    linarith
  · have hdigits : 52 ≤ m.log2 := by
      unfold HasDigits at h
      omega
    have hlog : (2 : ℚ) ^ m.log2 ≤ m := by
      exact_mod_cast Nat.log2_self_le (by rintro rfl; simp at hdigits)
    have hplace : e₁ = m.log2 + e - 52 := by omega
    calc (2 : ℚ) ^ e₁ / 2 = 2 ^ m.log2 * 2 ^ e / 2 ^ 53 := by
          rw [hplace, zpow_sub₀ (by decide), zpow_add₀ (by decide), zpow_natCast]
          norm_num
          ring
      _ ≤ m * 2 ^ e / 2 ^ 53 := by gcongr
      _ ≤ q / 2 ^ 53 := by gcongr
      _ ≤ q / 2 ^ 53 + leastSize / 2 := by linarith

/-- **Rounding is off by half a last place at most.** -/
theorem abs_magnitude_roundWithAccuracy_sub_le (s : Sign) (h : HasDigits m e)
    (hq : Locates (.ofMantissaAndAccuracy m acc) (q / 2 ^ e)) :
    |magnitude (roundWithAccuracy Format.binary64 s m e acc) - q| ≤ roundingError q := by
  have hshifted := (locates_shiftToTargetExponent hq).abs_roundedMantissa_sub_le
  have hplace := half_place_le h hq
  rw [(magnitude_roundWithAccuracy s h acc).1]
  generalize shiftToTargetExponent Format.binary64 m e acc = first at *
  obtain ⟨em, e₁⟩ := first
  simp only at hshifted hplace ⊢
  generalize em.roundedMantissa = r at *
  have hpow : (0 : ℚ) < 2 ^ e₁ := zpow_pos (by decide) e₁
  have hscaled : (r : ℚ) * 2 ^ e₁ - q = (r - q / 2 ^ e₁) * 2 ^ e₁ := by
    rw [sub_mul, div_mul_cancel₀ _ hpow.ne']
  rw [hscaled, abs_mul, abs_of_pos hpow]
  calc |(r : ℚ) - q / 2 ^ e₁| * 2 ^ e₁ ≤ 1 / 2 * 2 ^ e₁ := by gcongr
    _ = 2 ^ e₁ / 2 := by ring
    _ ≤ roundingError q := hplace

/-- The exact number lies below the next power of two. -/
theorem Locates.lt_two_zpow (hq : Locates (.ofMantissaAndAccuracy m acc) (q / 2 ^ e)) :
    q < 2 ^ totalExponent m e := by
  have hpow : (0 : ℚ) < 2 ^ e := zpow_pos (by decide) e
  have hlt := hq.lt
  rw [mantissa_ofMantissaAndAccuracy, div_lt_iff₀ hpow] at hlt
  have hm : (m : ℚ) + 1 ≤ 2 ^ (m.log2 + 1) := by exact_mod_cast Nat.lt_log2_self
  calc q < (m + 1) * 2 ^ e := hlt
    _ ≤ 2 ^ (m.log2 + 1) * 2 ^ e := by gcongr
    _ = 2 ^ totalExponent m e := by
      rw [totalExponent, zpow_add₀ (by decide)]
      norm_cast

/-- **Rounding passes no double.** What is no less than a double is not rounded to less. -/
theorem le_magnitude_roundWithAccuracy (s : Sign) (h : HasDigits m e)
    (hq : Locates (.ofMantissaAndAccuracy m acc) (q / 2 ^ e)) {t : Sign} {m' : ℕ} {e' : ℤ}
    {hm' : 0 < m'} (hc : Canonical (.finite t m' e' hm'))
    (hle : magnitude (.finite t m' e' hm') ≤ q) :
    magnitude (.finite t m' e' hm') ≤
      magnitude (roundWithAccuracy Format.binary64 s m e acc) := by
  have hpow : ∀ e : ℤ, (0 : ℚ) < 2 ^ e := fun e => zpow_pos (by decide) e
  have hlt := hq.lt_two_zpow
  have hshifted := (locates_shiftToTargetExponent hq).abs_roundedMantissa_sub_le
  have hdigits := h.le_roundedMantissa acc
  have hexponent := h.exponent_eq acc
  have hleast := hc.log2_le.2.1
  rw [(magnitude_roundWithAccuracy s h acc).1]
  generalize shiftToTargetExponent Format.binary64 m e acc = first at *
  obtain ⟨em, e₁⟩ := first
  simp only at hshifted hdigits hexponent ⊢
  generalize em.roundedMantissa = r at *
  rw [magnitude] at hle ⊢
  rcases Int.lt_trichotomy e' e₁ with hless | rfl | hmore
  · have hhigh : (m' : ℚ) ≤ 2 ^ 53 := by
      have : m' ≤ 2 ^ 53 := by cases hc <;> omega
      exact_mod_cast this
    calc (m' : ℚ) * 2 ^ e' ≤ 2 ^ 53 * 2 ^ e' := by gcongr
      _ ≤ r * 2 ^ e₁ := two_pow_mul_zpow_le (hdigits.resolve_right (by omega)) hless
  · have hplace : (m' : ℚ) ≤ q / 2 ^ e' := (le_div_iff₀ (hpow e')).2 hle
    have hr : m' ≤ r := by
      have hhalf := (abs_le.1 hshifted).1
      have : (m' : ℚ) < (r + 1 : ℕ) := by
        push_cast
        linarith
      exact Nat.le_of_lt_succ (Nat.cast_lt.1 this)
    gcongr
  · -- The double would be beyond the next power of two.
    have hlow : (2 : ℚ) ^ 52 ≤ m' := by
      have : 2 ^ 52 ≤ m' := by cases hc <;> omega
      exact_mod_cast this
    refine absurd (hlt.trans_le ?_) (not_lt.2 hle)
    calc (2 : ℚ) ^ totalExponent m e ≤ 2 ^ ((52 : ℕ) + e') :=
          zpow_le_zpow_right₀ (by decide) (by push_cast; omega)
      _ = 2 ^ 52 * 2 ^ e' := by rw [zpow_add₀ (by decide), zpow_natCast]
      _ ≤ m' * 2 ^ e' := by gcongr

end Round

end NetlistPrep.Double
