import NetlistPrep.Proofs.Double.Quotient

/-!
# The size of doubles

A finite double is a rational number, its sign apart (`size`). Doubles are ordered as their sizes
are (`le_abs_iff_size_le`), a double is determined by its sign and its size
(`unpack_eq_of_size_eq`), and no two sizes are closer than the least one
(`size_eq_of_abs_sub_lt`).
-/

namespace NetlistPrep.Double

open Float.Model UnpackedFloat

/-- The number that an unpacked form stands for, its sign apart; what is not finite stands for
none. -/
def magnitude : UnpackedFloat → ℚ
  | .finite _ m e _ => m * 2 ^ e
  | _ => 0

/-- The size of a finite double. -/
def size (x : Float) : ℚ := magnitude x.toModel.unpack

variable {x y : Float}

theorem magnitude_nonneg (u : UnpackedFloat) : 0 ≤ magnitude u := by
  cases u with
  | finite s m e hm => exact mul_nonneg (Nat.cast_nonneg m) (zpow_nonneg (by decide) e)
  | _ => exact le_refl 0

/-- The least size of a double that is not zero. -/
def leastSize : ℚ := 2 ^ (-1074 : ℤ)

theorem leastSize_pos : 0 < leastSize := zpow_pos (by decide) _

theorem size_nonneg (x : Float) : 0 ≤ size x := magnitude_nonneg _

theorem magnitude_finite_pos (s : Sign) {m : Nat} (e : Int) (hm : 0 < m) :
    0 < magnitude (.finite s m e hm) :=
  mul_pos (Nat.cast_pos.2 hm) (zpow_pos (by decide) e)

theorem size_abs (x : Float) : size x.abs = size x := by
  rw [size, size, unpack_abs]
  cases x.toModel.unpack <;> rfl

/-- A finite double that is not zero has all its parts. -/
theorem exists_of_size_pos (h : 0 < size x) :
    ∃ s m e hm, x.toModel.unpack = .finite s m e hm := by
  rw [size] at h
  cases hu : x.toModel.unpack with
  | finite s m e hm => exact ⟨s, m, e, hm, rfl⟩
  | _ => simp [hu, magnitude] at h

theorem isFinite_of_size_pos (h : 0 < size x) : x.isFinite = true := by
  obtain ⟨s, m, e, hm, hu⟩ := exists_of_size_pos h
  show x.toModel.unpack.isFinite = true
  rw [hu]
  rfl

theorem IsNormal.size_pos (h : IsNormal x.toModel.unpack) : 0 < size x := by
  obtain ⟨m, e, hm, hu, -⟩ := h.exists_eq
  rw [size, hu]
  exact magnitude_finite_pos _ _ hm

theorem magnitude_lt (s : Sign) {m : Nat} {e : Int} (hm : 0 < m) (hhigh : m < 2 ^ 53)
    (he : e ≤ 971) : magnitude (.finite s m e hm) < 2 ^ 1024 := by
  have hm' : (m : ℚ) < 2 ^ 53 := by exact_mod_cast hhigh
  have hpow : (0 : ℚ) < 2 ^ e := zpow_pos (by decide) e
  calc (m : ℚ) * 2 ^ e < 2 ^ 53 * 2 ^ e := by gcongr
    _ ≤ 2 ^ 53 * 2 ^ ((971 : ℕ) : ℤ) := by
      gcongr
      · decide
      · exact he
    _ = 2 ^ 1024 := by rw [zpow_natCast, ← pow_add]

theorem size_lt (x : Float) : size x < 2 ^ 1024 := by
  have hc := canonical_unpack x.toModel
  rw [size]
  cases hu : x.toModel.unpack with
  | finite s m e hm =>
    rw [hu] at hc
    have hhigh : m < 2 ^ 53 := by cases hc <;> omega
    exact magnitude_lt s hm hhigh hc.log2_le.2.2
  | _ => exact pow_pos (by decide) 1024

/-! ## The order -/

/-- All the digits are worth as much as one digit more at the next exponent. -/
theorem two_pow_mul_zpow_le {m' : Nat} {e e' : Int} (hlow : 2 ^ 52 ≤ m') (hlt : e < e') :
    (2 : ℚ) ^ 53 * 2 ^ e ≤ m' * 2 ^ e' := by
  have hlow' : (2 : ℚ) ^ 52 ≤ m' := by exact_mod_cast hlow
  have hone : (2 : ℚ) ≠ 0 := by decide
  calc (2 : ℚ) ^ 53 * 2 ^ e = (2 : ℚ) ^ 52 * 2 ^ (e + 1) := by rw [zpow_add_one₀ hone]; ring
    _ ≤ (m' : ℚ) * 2 ^ e' := by
      gcongr
      · decide
      · exact hlt

/-- A canonical form with the larger exponent is larger. -/
theorem Canonical.magnitude_lt {s s' : Sign} {m m' : Nat} {e e' : Int} {hm : 0 < m} {hm' : 0 < m'}
    (h : Canonical (.finite s m e hm)) (h' : Canonical (.finite s' m' e' hm')) (hlt : e < e') :
    magnitude (.finite s m e hm) < magnitude (.finite s' m' e' hm') := by
  have hhigh : m < 2 ^ 53 := by
    cases h <;> omega
  have hlow : 2 ^ 52 ≤ m' := by
    have := h.log2_le
    cases h' <;> omega
  have hpow : (0 : ℚ) < 2 ^ e := zpow_pos (by decide) e
  calc (m : ℚ) * 2 ^ e < 2 ^ 53 * 2 ^ e := by gcongr; exact_mod_cast hhigh
    _ ≤ m' * 2 ^ e' := two_pow_mul_zpow_le hlow hlt

/-- **Positive doubles compare as their sizes do.** -/
theorem compare_positive {m m' : Nat} {e e' : Int} {hm : 0 < m} {hm' : 0 < m'}
    (h : Canonical (.finite .positive m e hm)) (h' : Canonical (.finite .positive m' e' hm')) :
    UnpackedFloat.compare (.finite .positive m e hm) (.finite .positive m' e' hm') =
      some (compare (magnitude (.finite .positive m e hm))
        (magnitude (.finite .positive m' e' hm'))) := by
  show some ((compare e e').then (compare m m')) = _
  congr 1
  rcases Int.lt_trichotomy e e' with hlt | rfl | hgt
  · rw [Int.compare_eq_lt.2 hlt, compare_lt_iff_lt.2 (h.magnitude_lt h' hlt)]
    rfl
  · have hpow : (0 : ℚ) < 2 ^ e := zpow_pos (by decide) e
    have hsame : compare e e = .eq := Int.compare_eq_eq.2 rfl
    rw [hsame]
    show compare m m' = compare ((m : ℚ) * 2 ^ e) (m' * 2 ^ e)
    rcases Nat.lt_trichotomy m m' with hlt | rfl | hgt
    · rw [compare_lt_iff_lt.2 hlt, eq_comm, compare_lt_iff_lt]
      gcongr
    · rw [compare_eq_iff_eq.2 rfl, compare_eq_iff_eq.2 rfl]
    · rw [compare_gt_iff_gt.2 hgt, eq_comm, compare_gt_iff_gt]
      gcongr
  · rw [Int.compare_eq_gt.2 hgt, compare_gt_iff_gt.2 (h'.magnitude_lt h hgt)]
    rfl

/-- A positive double fits a magnitude if it is no larger in size. -/
theorem le_abs_iff_size_le (hx : x.isFinite = true) (hy : IsNormal y.toModel.unpack) :
    y ≤ x.abs ↔ size y ≤ size x := by
  have hsize := hy.size_pos
  obtain ⟨m', e', hm', hyu, -⟩ := hy.exists_eq
  have hxc := (canonical_unpack x.toModel).abs
  have hyc := canonical_unpack y.toModel
  rw [le_iff_compare, unpack_abs, ← size_abs x, size, size, unpack_abs]
  rw [size] at hsize
  rw [hyu] at hyc hsize ⊢
  rcases finite_cases hx with ⟨s, hxu⟩ | ⟨s, m, e, hm, hxu⟩ <;> rw [hxu] at hxc ⊢
  · simpa [UnpackedFloat.abs, UnpackedFloat.compare, magnitude] using hsize
  · simp only [UnpackedFloat.abs] at hxc ⊢
    rw [compare_positive hyc hxc, Option.any_some, Ordering.isLE_iff_ne_gt]
    exact compare_le_iff_le

theorem IsNormal.isFinite (h : IsNormal x.toModel.unpack) : x.isFinite = true :=
  isFinite_of_size_pos h.size_pos

theorem le_iff_size_le (hx : IsNormal x.toModel.unpack) (hy : IsNormal y.toModel.unpack) :
    y ≤ x ↔ size y ≤ size x := by
  obtain ⟨m, e, hm, hu, -⟩ := hx.exists_eq
  rw [← le_abs_iff_size_le hx.isFinite hy, le_iff_compare, le_iff_compare, unpack_abs, hu]
  rfl

/-! ## What a size determines -/

/-- **A finite double is determined by its sign and its size.** -/
theorem unpack_eq_of_size_eq (hx : x.isFinite = true) (hy : y.isFinite = true)
    (hsign : sign? x.toModel.unpack = sign? y.toModel.unpack) (hsize : size x = size y) :
    x.toModel.unpack = y.toModel.unpack := by
  have hxc := canonical_unpack x.toModel
  have hyc := canonical_unpack y.toModel
  rw [size, size] at hsize
  rcases finite_cases hx with ⟨s, hxu⟩ | ⟨s, m, e, hm, hxu⟩ <;>
    rw [hxu] at hxc hsign hsize ⊢
  · rcases finite_cases hy with ⟨t, hyu⟩ | ⟨t, m', e', hm', hyu⟩ <;> rw [hyu] at hsign hsize ⊢
    · rw [Option.some.inj hsign]
    · exact absurd hsize (ne_of_lt (magnitude_finite_pos t e' hm'))
  · rcases finite_cases hy with ⟨t, hyu⟩ | ⟨t, m', e', hm', hyu⟩ <;>
      rw [hyu] at hyc hsign hsize ⊢
    · exact absurd hsize.symm (ne_of_lt (magnitude_finite_pos s e hm))
    · obtain rfl : s = t := Option.some.inj hsign
      rcases Int.lt_trichotomy e e' with hlt | rfl | hgt
      · exact absurd hsize (ne_of_lt (hxc.magnitude_lt hyc hlt))
      · have hpow : (2 : ℚ) ^ e ≠ 0 := zpow_ne_zero e (by decide)
        obtain rfl : m = m' := by exact_mod_cast mul_right_cancel₀ hpow hsize
        rfl
      · exact absurd hsize.symm (ne_of_lt (hyc.magnitude_lt hxc hgt))

/-- Every size is a multiple of the least one. -/
theorem exists_size_eq (x : Float) : ∃ n : ℕ, size x = n * leastSize := by
  have hc := canonical_unpack x.toModel
  rw [size]
  cases hu : x.toModel.unpack with
  | finite s m e hm =>
    rw [hu] at hc
    have he := hc.log2_le.2.1
    refine ⟨m * 2 ^ (e + 1074).toNat, ?_⟩
    have hpow : (2 : ℚ) ^ e = 2 ^ (e + 1074).toNat * leastSize := by
      rw [leastSize, ← zpow_natCast, ← zpow_add₀ (by decide)]
      congr 1
      omega
    show (m : ℚ) * 2 ^ e = _
    rw [hpow]
    push_cast
    ring
  | _ => exact ⟨0, by simp [magnitude]⟩

/-- Sizes that are closer than the least one are the same. -/
theorem size_eq_of_abs_sub_lt (h : |size x - size y| < leastSize) : size x = size y := by
  obtain ⟨n, hn⟩ := exists_size_eq x
  obtain ⟨n', hn'⟩ := exists_size_eq y
  rw [hn, hn', ← sub_mul, abs_mul, abs_of_pos leastSize_pos] at h
  have hclose : |(n : ℚ) - n'| < 1 :=
    lt_of_mul_lt_mul_right (by rwa [one_mul]) leastSize_pos.le
  have hint : |(n : ℤ) - n'| < 1 := by exact_mod_cast hclose
  have hsame : (n : ℤ) = n' := by
    have := Int.abs_lt_one_iff.1 hint
    omega
  obtain rfl : n = n' := by exact_mod_cast hsame
  rw [hn, hn']

end NetlistPrep.Double
