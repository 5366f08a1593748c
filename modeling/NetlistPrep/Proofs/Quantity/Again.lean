import NetlistPrep.Proofs.Quantity.Size

/-!
# Written quantities that are written again

A text of six digits is written as it was read wherever the errors of reading and writing stay small
beside the last digit. Between two units they do (`write_read_of_step`), and beyond the largest one
(`write_read_of_largest`). Without a unit they do unless the number is among the smallest doubles;
the texts of these are read as the very doubles that they were written for
(`write_read_of_none`).
-/

namespace NetlistPrep.Quantity

open Float.Model UnpackedFloat Double

section Unit

variable {unit : Text × Float} {s : Sign} {n : ℕ} {power : ℤ}

/-- The power of ten that the least unit is next to. -/
def leastPower : ℚ := 10 ^ (-24 : ℤ)

theorem leastPower_pos : 0 < leastPower := zpow_pos (by decide) _

/-- Where the units end, and one between them. -/
theorem size_ends : |size least.2 - leastPower| ≤ leastPower / 2 ^ 50 ∧
    |size largest.2 - 10 ^ 24| ≤ 10 ^ 24 / 2 ^ 50 ∧ size 1 = 1 := by
  decide +kernel

theorem size_one : size 1 = 1 := size_ends.2.2

theorem size_unit_bounds (h : unit ∈ units) :
    1 / 2 ^ 81 ≤ size unit.2 ∧ size unit.2 ≤ 2 ^ 80 := by
  obtain ⟨hleast, hlargest, -⟩ := size_ends
  have hlow := (abs_le.1 hleast).1
  have hhigh := (abs_le.1 hlargest).2
  obtain ⟨hfirst, hlast⟩ := size_mem_units h
  constructor
  · norm_num [leastPower] at hlow ⊢
    linarith
  · norm_num at hhigh ⊢
    linarith

/-- The power of ten that the largest numbers are measured in. -/
def topPower : ℚ := 10 ^ (277 : ℤ)

theorem topPower_pos : 0 < topPower := zpow_pos (by decide) _

/-- The largest number that is written with the largest unit. -/
def topNumber : ℚ := 17976900 * topPower

/-- What is read and written stays within the doubles. -/
theorem safeSize_bounds : 2 * 10 ^ 3 * 2 ^ 80 ≤ safeSize ∧
    35953864 * topPower ≤ safeSize ∧
    (topNumber + topNumber / 2 ^ 52) * size largest.2 ≤ safeSize ∧
    2 ^ 1024 ≤ 35953863 / 2 * topPower * size largest.2 := by
  decide +kernel

/-- A double stands for a number of a unit, one or more of it. -/
structure IsInUnit (y : Float) (unit : Text × Float) (s : Sign) (q : ℚ) : Prop where
  isFinite : y.isFinite = true
  sign : sign? y.toModel.unpack = some s
  fits : size unit.2 ≤ size y
  near : |size y / size unit.2 - q| ≤ q / 2 ^ 50

/-- **What is written in a unit is read in that unit.** -/
theorem read_text_of_unit (h : unit ∈ units) (hone : 1 ≤ (n : ℚ) * 10 ^ power)
    (hsafe : (n * 10 ^ power + n * 10 ^ power / 2 ^ 52) * size unit.2 ≤ safeSize)
    (hsafe' : 2 * (n * 10 ^ power) ≤ safeSize) (s : Sign) :
    IsInUnit (read (text s n power unit.1)) unit s (n * 10 ^ power) := by
  have hletter : unit.1 ∈ [] :: units.map (·.1) :=
    List.mem_cons_of_mem _ (List.mem_map_of_mem h)
  have hsafe'' : (n : ℚ) * 10 ^ power ≤ safeSize := by linarith
  obtain ⟨v, hv, hsign, hread⟩ := read_text s hsafe'' hletter
  rw [multiplier?_of_mem_units h, Option.map_some, Option.getD_some] at hread
  generalize (n : ℚ) * 10 ^ power = q at *
  have hnormal := (isNormal_of_mem_units h).1
  have hM : 0 < size unit.2 := hnormal.size_pos
  -- The numeral is next to the number, and the product is next to the numeral times the unit.
  have hvone : 1 ≤ size v := size_one ▸ hv.le_size 1 (size_one ▸ hone)
  obtain ⟨hvlow, hvhigh⟩ := abs_le.1 (hv.abs_sub_le_part (by linarith))
  have hfits : size unit.2 ≤ size v * size unit.2 := le_mul_of_one_le_left hM.le hvone
  have hy : IsNear (v * unit.2) (size v * size unit.2) := by
    refine isNear_mul hv.isFinite hnormal (le_trans ?_ hsafe)
    gcongr
    linarith
  have hproduct := hy.abs_sub_le_part ((size_unit_bounds h).1.trans hfits)
  rw [mul_div_right_comm] at hproduct
  obtain ⟨hrlow, hrhigh⟩ := abs_le.1 ((Digits.abs_sub_mul_le hM (size v)).2 hproduct)
  rw [hread]
  exact ⟨hy.isFinite, (sign?_mul_of_isNormal v hnormal).trans hsign, hy.le_size _ hfits,
    abs_le.2 ⟨by linarith, by linarith⟩⟩

/-- **A double in a unit is written with the digits of its number.** -/
theorem IsInUnit.write_eq {y : Float} (hy : IsInUnit y unit s (n * 10 ^ power)) (h : unit ∈ units)
    (hu : unitFor? y.abs = some unit) (hlow : 10 ^ 5 ≤ n) (hhigh : n < 10 ^ 6)
    (hone : 1 ≤ (n : ℚ) * 10 ^ power) (hsafe : 2 * (n * 10 ^ power) ≤ safeSize) :
    write y = text s n power unit.1 := by
  have hnormal := (isNormal_of_mem_units h).1
  have hdigits : (n : ℚ) * 10 ^ power < 10 ^ 6 * 10 ^ power := by
    have : (n : ℚ) < 10 ^ 6 := by exact_mod_cast hhigh
    gcongr
  obtain ⟨hrlow, hrhigh⟩ := abs_le.1 hy.near
  have hdiv := isNear_div hy.isFinite hnormal (by linarith)
  obtain ⟨helow, hehigh⟩ := abs_le.1 (hdiv.abs_sub_le_part (by linarith))
  refine write_of_some hu (Decimal.general_of_close (by linarith) ?_ hlow hhigh
    (abs_lt.2 ⟨by linarith, by linarith⟩))
  exact (sign?_div_of_isNormal y hnormal).trans hy.sign

/-- The next unit is about a power of ten times larger. -/
def IsRatio (step : (Text × Float) × (Text × Float)) (r : ℕ) : Prop :=
  |size step.2.2 - size step.1.2 * 10 ^ r| ≤ size step.1.2 * 10 ^ r / 2 ^ 50

instance (step : (Text × Float) × (Text × Float)) (r : ℕ) : Decidable (IsRatio step r) :=
  inferInstanceAs (Decidable (_ ≤ _))

variable {small large : Text × Float} {q : ℚ} {r : ℕ}

/-- **What lies between two units is written as it was read.** -/
theorem write_read_of_step (h : (small, large) ∈ steps) (hr : r ≤ 3)
    (hratio : IsRatio (small, large) r) (hn : Digits.IsNearest 5 q n power)
    (hone : 1 ≤ (n : ℚ) * 10 ^ power) (hless : (n : ℚ) * 10 ^ power < 10 ^ r) (s : Sign) :
    write (read (text s n power small.1)) = text s n power small.1 := by
  have hsmall : small ∈ units := (mem_units_of_mem_steps h).1
  have hM : 0 < size small.2 := (isNormal_of_mem_units hsmall).1.size_pos
  have hMhigh := (size_unit_bounds hsmall).2
  have hten : (0 : ℚ) < 10 ^ power := zpow_pos (by decide) power
  have hdigits : (n : ℚ) * 10 ^ power < 10 ^ 6 * 10 ^ power := hn.size_lt
  have hbelow := hn.size_add_unit_le (r := r) (by rwa [zpow_natCast])
  rw [zpow_natCast] at hbelow
  have hthousand : (10 : ℚ) ^ r ≤ 10 ^ 3 := pow_le_pow_right₀ (by decide) hr
  have hsafe := safeSize_bounds.1
  have hsafe' : (n * 10 ^ power + n * 10 ^ power / 2 ^ 52) * size small.2 ≤ safeSize := by
    refine le_trans ?_ hsafe
    gcongr
    linarith
  have hy := read_text_of_unit hsmall hone hsafe' (by linarith) s
  generalize read (text s n power small.1) = y at *
  have hyhigh := (abs_le.1 hy.near).2
  have hhigh : size y < size large.2 := by
    have hstep : size small.2 * 10 ^ r - size small.2 * 10 ^ r / 2 ^ 50 ≤ size large.2 := by
      have := (abs_le.1 hratio).1
      linarith
    calc size y ≤ (n * 10 ^ power + n * 10 ^ power / 2 ^ 50) * size small.2 := by
          rw [← div_le_iff₀ hM]
          linarith
      _ < (10 ^ r - 10 ^ r / 2 ^ 50) * size small.2 := by
          gcongr
          linarith
      _ ≤ size large.2 := by linarith
  exact hy.write_eq hsmall (unitFor?_of_step hy.isFinite h hy.fits hhigh) hn.low hn.high hone
    (by linarith)

/-- **What the largest unit fits is written as it was read.** -/
theorem write_read_of_largest (hn : Digits.IsNearest 5 q n power)
    (hone : 1 ≤ (n : ℚ) * 10 ^ power) (htop : (n : ℚ) * 10 ^ power ≤ topNumber) (s : Sign) :
    write (read (text s n power largest.1)) = text s n power largest.1 := by
  have hM : 0 < size largest.2 := (isNormal_of_mem_units largest_mem).1.size_pos
  obtain ⟨-, htwice, hsafe, -⟩ := safeSize_bounds
  have hsafe' : 2 * topNumber ≤ safeSize := by
    have := topPower_pos
    unfold topNumber
    linarith
  have hsafe'' : (n * 10 ^ power + n * 10 ^ power / 2 ^ 52) * size largest.2 ≤ safeSize := by
    refine le_trans ?_ hsafe
    gcongr
  have hy := read_text_of_unit largest_mem hone hsafe'' (by linarith) s
  exact hy.write_eq largest_mem (unitFor?_of_largest hy.isFinite hy.fits) hn.low hn.high hone
    (by linarith)

end Unit

/-! ## Digits near the edges -/

section Edges

variable {n : ℕ} {power r : ℤ} {q : ℚ}

/-- What is hardly more than a power of ten has no larger digits. -/
theorem size_le_of_nearest (hn : Digits.IsNearest 5 q n power)
    (hq : q ≤ 10 ^ r + 10 ^ r / 2 ^ 48) : (n : ℚ) * 10 ^ power ≤ 10 ^ r := by
  refine not_lt.1 fun hmore => ?_
  have hdigits : (n : ℚ) * 10 ^ power < 10 ^ 6 * 10 ^ power := hn.size_lt
  have habove := hn.add_unit_le hmore
  have hnear := (abs_le.1 hn.near).1
  linarith

theorem size_le_topNumber (hn : Digits.IsNearest 5 q n power) (hq : q ≤ 17976932 * topPower) :
    (n : ℚ) * 10 ^ power ≤ topNumber := by
  have hdigits : (n : ℚ) * 10 ^ power < 10 ^ 6 * 10 ^ power := hn.size_lt
  have hnear := (abs_le.1 hn.near).1
  have hpos := topPower_pos
  have h278 : (10 : ℚ) ^ (278 : ℤ) = 10 ^ (1 : ℤ) * topPower := (zpow_add₀ (by decide) 1 277)
  have h279 : (10 : ℚ) ^ (279 : ℤ) = 10 ^ (2 : ℤ) * topPower := (zpow_add₀ (by decide) 2 277)
  have h280 : (10 : ℚ) ^ (280 : ℤ) = 10 ^ (3 : ℤ) * topPower := (zpow_add₀ (by decide) 3 277)
  unfold topNumber
  rcases lt_trichotomy power 279 with hless | rfl | hmore
  · have hpower : (10 : ℚ) ^ power ≤ 10 ^ (278 : ℤ) := zpow_le_zpow_right₀ (by decide) (by omega)
    rw [h278] at hpower
    linarith only [hpower, hdigits, hpos]
  · rw [h279] at hnear ⊢
    have hn' : (n : ℚ) ≤ 179769 := by
      refine not_lt.1 fun hlt => ?_
      have hle : (179770 : ℚ) ≤ n := by exact_mod_cast hlt
      have hmore : 179770 * (100 * topPower) ≤ n * (100 * topPower) := by gcongr
      linarith only [hnear, hmore, hq, hpos]
    have hle : (n : ℚ) * (100 * topPower) ≤ 179769 * (100 * topPower) := by gcongr
    linarith only [hle]
  · have hpower : (10 : ℚ) ^ (280 : ℤ) ≤ 10 ^ power := zpow_le_zpow_right₀ (by decide) (by omega)
    rw [h280] at hpower
    have hlow : (10 : ℚ) ^ 5 ≤ n := by exact_mod_cast hn.low
    have hmore : (10 : ℚ) ^ 5 * 10 ^ power ≤ n * 10 ^ power := by gcongr
    linarith only [hnear, hmore, hq, hpower, hpos]

end Edges

/-! ## Without a unit -/

section NoUnit

variable {x : Float} {s : Sign} {n : ℕ} {power : ℤ} {q : ℚ}

theorem size_lt_of_none (hx : x.isFinite = true) (hu : unitFor? x.abs = none) :
    size x < size least.2 := by
  rw [← not_le]
  exact fun hle => not_le_of_unitFor? hu _ least_mem ((le_abs_iff hx least_mem).2 hle)

theorem write_congr_of_none {y : Float} (hx : unitFor? x.abs = none) (hy : unitFor? y.abs = none)
    (h : x.toModel.unpack = y.toModel.unpack) : write x = write y := by
  simp only [write, hx, hy, Decimal.general, Style.writeFloat, ofFloat_eq, h]

/-- Where the least double stands among the powers of ten. -/
theorem leastSize_bounds : 10 ^ (-324 : ℤ) ≤ leastSize * (10 / 49) ∧
    leastSize ≤ 10 ^ (-323 : ℤ) / 2 ∧ leastSize ≤ 10 ^ (-322 : ℤ) / 20 ∧
    leastSize ≤ leastPower / 2 ^ 50 := by
  decide +kernel

/-- What is written without a unit is read as a double next to it, which has no unit either. -/
theorem read_text_of_none (hn : Digits.IsNearest 5 q n power)
    (hless : (n : ℚ) * 10 ^ power < leastPower) (s : Sign) :
    sign? (read (text s n power [])).toModel.unpack = some s ∧
      IsNear (read (text s n power [])) (n * 10 ^ power) ∧
      unitFor? (read (text s n power [])).abs = none := by
  have hpos := leastPower_pos
  have hsafe : leastPower ≤ safeSize := by
    have hone : leastPower ≤ 1 := zpow_le_one_of_nonpos₀ (by decide) (by decide)
    have := safeSize_bounds.1
    linarith
  obtain ⟨v, hv, hsign, hread⟩ := read_text s (hless.le.trans hsafe) List.mem_cons_self
  have hnone : multiplier? [] = none := by simp [multiplier?, units, List.lookup]
  rw [hnone, Option.map_none, Option.getD_none] at hread
  rw [hread]
  refine ⟨hsign, hv, unitFor?_of_lt hv.isFinite ?_⟩
  have hten : (0 : ℚ) < 10 ^ power := zpow_pos (by decide) power
  have hdigits : (n : ℚ) * 10 ^ power < 10 ^ 6 * 10 ^ power := hn.size_lt
  have hbelow := hn.size_add_unit_le (r := -24) hless
  have hleast := leastSize_bounds.2.2.2
  have hnear := hv.bounds.2
  have hunit := (abs_le.1 size_ends.1).1
  change (n : ℚ) * 10 ^ power + 10 ^ power ≤ leastPower at hbelow
  show size v < size least.2
  by_cases hhalf : (n : ℚ) * 10 ^ power ≤ leastPower / 2
  · linarith
  · linarith

/-- Where a digit is worth less than the least double, the double that was written is the only one
that near. -/
theorem unpack_eq_of_near {v : Float} (hx : 0 < size x) (hn : Digits.IsNearest 5 (size x) n power)
    (hv : IsNear v (n * 10 ^ power)) (hsign : sign? v.toModel.unpack = sign? x.toModel.unpack)
    (hpower : power < -323) : v.toModel.unpack = x.toModel.unpack := by
  refine unpack_eq_of_size_eq hv.isFinite (isFinite_of_size_pos hx) hsign
    (size_eq_of_abs_sub_lt ?_)
  have hunit : (10 : ℚ) ^ power ≤ leastSize * (10 / 49) :=
    (zpow_le_zpow_right₀ (by decide) (by omega)).trans leastSize_bounds.1
  have hdigits : (n : ℚ) * 10 ^ power < 10 ^ 6 * 10 ^ power := hn.size_lt
  obtain ⟨hvlow, hvhigh⟩ := hv.bounds
  obtain ⟨hxlow, hxhigh⟩ := abs_le.1 hn.near
  rw [abs_lt]
  constructor <;> linarith

/-- Where a digit is worth more, the errors are small beside it. -/
theorem write_of_near {v : Float} (hv : IsNear v (n * 10 ^ power)) (hnone : unitFor? v.abs = none)
    (hsign : sign? v.toModel.unpack = some s) (hlow : 10 ^ 5 ≤ n) (hhigh : n < 10 ^ 6)
    (hpower : -323 < power) : write v = text s n power [] := by
  have hunit : leastSize ≤ 10 ^ power / 20 := by
    have hle : (10 : ℚ) ^ (-322 : ℤ) ≤ 10 ^ power := zpow_le_zpow_right₀ (by decide) (by omega)
    exact leastSize_bounds.2.2.1.trans (div_le_div_of_nonneg_right hle (by decide))
  have hten : (0 : ℚ) < 10 ^ power := zpow_pos (by decide) power
  have hmore : (10 : ℚ) ^ 5 * 10 ^ power ≤ n * 10 ^ power := by
    gcongr
    exact_mod_cast hlow
  have hdigits : (n : ℚ) * 10 ^ power < 10 ^ 6 * 10 ^ power := by
    gcongr
    exact_mod_cast hhigh
  have hleast := leastSize_pos
  obtain ⟨hvlow, hvhigh⟩ := hv.bounds
  refine write_of_none hnone (Decimal.general_of_close ?_ hsign hlow hhigh ?_)
  · linarith
  · rw [abs_lt]
    constructor <;> linarith

/-- On the edge between the two, half a digit is more than the errors. That is near enough, unless
the number is a power of ten. -/
theorem write_of_near_edge {v : Float} (hv : IsNear v (n * 10 ^ (-323 : ℤ)))
    (hnone : unitFor? v.abs = none) (hsign : sign? v.toModel.unpack = some s) (hlow : 10 ^ 5 < n)
    (hhigh : n < 10 ^ 6) : write v = text s n (-323) [] := by
  have hunit := leastSize_bounds.2.1
  have hten : (0 : ℚ) < 10 ^ (-323 : ℤ) := zpow_pos (by decide) _
  have hmore : ((10 : ℚ) ^ 5 + 1) * 10 ^ (-323 : ℤ) ≤ n * 10 ^ (-323 : ℤ) := by
    gcongr
    exact_mod_cast hlow
  have hdigits : (n : ℚ) * 10 ^ (-323 : ℤ) < 10 ^ 6 * 10 ^ (-323 : ℤ) := by
    gcongr
    exact_mod_cast hhigh
  have hleast := leastSize_pos
  obtain ⟨hvlow, hvhigh⟩ := hv.bounds
  refine write_of_none hnone (Decimal.general_of_le ?_ hsign hhigh ?_ ?_) <;>
    generalize (10 : ℚ) ^ (-323 : ℤ) = U at *
  · linarith
  · linarith
  · rw [abs_lt]
    constructor <;> linarith

/-- **What has no unit is written as it was read,** with one exception on the edge. -/
theorem write_read_of_none (hx : 0 < size x) (hs : sign? x.toModel.unpack = some s)
    (hu : unitFor? x.abs = none) (hn : Digits.IsNearest 5 (size x) n power)
    (htext : write x = text s n power []) (hless : (n : ℚ) * 10 ^ power < leastPower)
    (hne : (n : ℚ) * 10 ^ power ≠ 10 ^ (-318 : ℤ)) :
    write (read (text s n power [])) = text s n power [] := by
  obtain ⟨hsign, hv, hnone⟩ := read_text_of_none hn hless s
  rcases lt_trichotomy power (-323) with hsmall | rfl | hlarge
  · have hsame := unpack_eq_of_near hx hn hv (hsign.trans hs.symm) hsmall
    exact (write_congr_of_none hnone hu hsame).trans htext
  · refine write_of_near_edge hv hnone hsign (lt_of_le_of_ne hn.low ?_) hn.high
    rintro rfl
    have hedge : (10 : ℚ) ^ (-318 : ℤ) = 10 ^ 5 * 10 ^ (-323 : ℤ) := zpow_add₀ (by decide) 5 (-323)
    exact hne (by rw [hedge, Nat.cast_pow, Nat.cast_ofNat])
  · exact write_of_near hv hnone hsign hn.low hn.high hlarge

end NoUnit

end NetlistPrep.Quantity
