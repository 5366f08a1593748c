import NetlistPrep.Proofs.Decimal.Size

/-!
# Rounding to significant digits

The first digits of a positive number are those of the nearest number that has no more digits
(`Digits.exists_round`). Two numbers have the same first digits where both are close enough to one
such number (`Digits.round_of_close`).
-/

namespace NetlistPrep

variable {num den : ℕ}

/-! ## Whole numbers -/

theorem abs_roundHalfEven_sub_le (hden : 0 < den) :
    |(roundHalfEven num den : ℚ) - num / den| ≤ 1 / 2 := by
  have hd : (0 : ℚ) < den := Nat.cast_pos.2 hden
  have hsplit : (num : ℚ) = (num / den : ℕ) * den + (num % den : ℕ) := by
    exact_mod_cast (Nat.div_add_mod' num den).symm
  have hrest : ((num % den : ℕ) : ℚ) < den := by exact_mod_cast Nat.mod_lt num hden
  have hnonneg : (0 : ℚ) ≤ (num % den : ℕ) := Nat.cast_nonneg _
  have hscaled : ∀ r : ℕ, (r : ℚ) - num / den = (r * den - num) / den := fun r => by
    rw [sub_div, mul_div_cancel_right₀ _ hd.ne']
  rw [hscaled, abs_div, abs_of_pos hd, div_le_iff₀ hd, abs_le]
  unfold roundHalfEven
  simp only
  split
  · rename_i hless
    have hless' : 2 * ((num % den : ℕ) : ℚ) < den := by exact_mod_cast hless
    constructor <;> linarith
  · rename_i hnotless
    have hnotless' : (den : ℚ) ≤ 2 * (num % den : ℕ) := by exact_mod_cast Nat.le_of_not_lt hnotless
    split
    · push_cast
      constructor <;> linarith
    · rename_i hnotmore
      have hhalf : 2 * ((num % den : ℕ) : ℚ) = den := by
        exact_mod_cast (by omega : 2 * (num % den) = den)
      rcases Nat.mod_two_eq_zero_or_one (num / den) with heven | hodd
      · rw [heven]
        push_cast
        constructor <;> linarith
      · rw [hodd]
        push_cast
        constructor <;> linarith

/-- Less than half away there is no other whole number. -/
theorem roundHalfEven_eq {n : ℕ} (hden : 0 < den) (h : |(num : ℚ) / den - n| < 1 / 2) :
    roundHalfEven num den = n := by
  have hclose : |((roundHalfEven num den : ℤ) : ℚ) - n| < 1 := by
    have := abs_sub_le (roundHalfEven num den : ℚ) (num / den) n
    have := @abs_roundHalfEven_sub_le num _ hden
    push_cast
    linarith
  have hint : |(roundHalfEven num den : ℤ) - n| < 1 := by exact_mod_cast hclose
  have := Int.abs_lt_one_iff.1 hint
  omega

namespace Digits

/-! ## The quotient of a double -/

theorem quotient_pos {m : ℕ} (hm : 0 < m) (e : ℤ) :
    0 < (quotient m e).1 ∧ 0 < (quotient m e).2 := by
  unfold quotient
  split
  · exact ⟨Nat.mul_pos hm (Nat.pow_pos (by decide)), Nat.one_pos⟩
  · exact ⟨hm, Nat.pow_pos (by decide)⟩

theorem quotient_eq (m : ℕ) (e : ℤ) :
    ((quotient m e).1 : ℚ) / (quotient m e).2 = m * 2 ^ e := by
  unfold quotient
  split
  · rename_i h
    obtain ⟨k, rfl⟩ := Int.eq_ofNat_of_zero_le h
    simp
  · rename_i h
    obtain ⟨k, rfl⟩ : ∃ k : ℕ, e = -k := ⟨(-e).toNat, by omega⟩
    simp [div_eq_mul_inv]

/-! ## The leading power of ten -/

/-- **The leading power of ten** is the largest one that is no larger than the quotient. -/
theorem leading_spec (hnum : 0 < num) (hden : 0 < den) :
    (10 : ℚ) ^ leading num den ≤ num / den ∧ (num : ℚ) / den < 10 ^ (leading num den + 1) := by
  have hd : (0 : ℚ) < den := Nat.cast_pos.2 hden
  have hn : (0 : ℚ) < num := Nat.cast_pos.2 hnum
  unfold leading
  split
  · rename_i hle
    obtain ⟨hlow, hhigh⟩ := pow_le_of_length_toDigits (Nat.div_pos hle hden)
    have hpos : 0 < (Nat.toDigits 10 (num / den)).length := Nat.length_toDigits_pos
    generalize (Nat.toDigits 10 (num / den)).length = l at *
    obtain ⟨k, rfl⟩ : ∃ k, l = k + 1 := ⟨l - 1, by omega⟩
    rw [Nat.le_div_iff_mul_le hden] at hlow
    rw [Nat.div_lt_iff_lt_mul hden] at hhigh
    rw [le_div_iff₀ hd, div_lt_iff₀ hd]
    push_cast
    simp only [add_sub_cancel_right, zpow_natCast]
    constructor
    · exact_mod_cast hlow
    · rw [← Nat.cast_add_one, zpow_natCast]
      exact_mod_cast hhigh
  · rename_i hless
    have hinverse : 0 < (den - 1) / num := Nat.div_pos (by omega) hnum
    obtain ⟨hlow, hhigh⟩ := pow_le_of_length_toDigits hinverse
    have hpos : 0 < (Nat.toDigits 10 ((den - 1) / num)).length := Nat.length_toDigits_pos
    generalize (Nat.toDigits 10 ((den - 1) / num)).length = l at *
    obtain ⟨k, rfl⟩ : ∃ k, l = k + 1 := ⟨l - 1, by omega⟩
    rw [Nat.le_div_iff_mul_le hnum] at hlow
    rw [Nat.div_lt_iff_lt_mul hnum] at hhigh
    have hlow' : 10 ^ k * num < den := by
      simp only [Nat.add_sub_cancel] at hlow
      omega
    have hhigh' : den ≤ 10 ^ (k + 1) * num := by omega
    constructor
    · rw [le_div_iff₀ hd, zpow_neg, inv_mul_le_iff₀ (zpow_pos (by decide) _), zpow_natCast]
      exact_mod_cast hhigh'
    · have hexponent : -((k + 1 : ℕ) : ℤ) + 1 = -(k : ℤ) := by push_cast; ring
      rw [hexponent, div_lt_iff₀ hd, zpow_neg, ← div_eq_inv_mul,
        lt_div_iff₀ (zpow_pos (by decide) _), zpow_natCast, mul_comm]
      exact_mod_cast hlow'

theorem leading_eq {k : ℤ} (hden : 0 < den) (hlow : (10 : ℚ) ^ k ≤ num / den)
    (hhigh : (num : ℚ) / den < 10 ^ (k + 1)) : leading num den = k := by
  have hd : (0 : ℚ) < den := Nat.cast_pos.2 hden
  have hpos : (0 : ℚ) < num / den := (zpow_pos (by decide) k).trans_le hlow
  have hnum : 0 < num := by
    refine Nat.pos_of_ne_zero ?_
    rintro rfl
    simp at hpos
  obtain ⟨hlow', hhigh'⟩ := leading_spec hnum hden
  have h₁ := (zpow_lt_zpow_iff_right₀ (by decide : (1 : ℚ) < 10)).1 (hlow.trans_lt hhigh')
  have h₂ := (zpow_lt_zpow_iff_right₀ (by decide : (1 : ℚ) < 10)).1 (hlow'.trans_lt hhigh)
  omega

/-! ## The first digits -/

theorem inUnits_spec (hden : 0 < den) (unit : ℤ) :
    ((inUnits num den unit).1 : ℚ) / (inUnits num den unit).2 = num / den / 10 ^ unit ∧
      0 < (inUnits num den unit).2 := by
  unfold inUnits
  split
  · rename_i h
    obtain ⟨k, rfl⟩ := Int.eq_ofNat_of_zero_le h
    refine ⟨?_, Nat.mul_pos hden (Nat.pow_pos (by decide))⟩
    simp [div_div]
  · rename_i h
    obtain ⟨k, rfl⟩ : ∃ k : ℕ, unit = -k := ⟨(-unit).toNat, by omega⟩
    refine ⟨?_, hden⟩
    simp
    ring

/-- A number of `c + 1` digits in units of a power of ten that is nearest to a number. -/
structure IsNearest (c : ℕ) (q : ℚ) (n : ℕ) (unit : ℤ) : Prop where
  low : 10 ^ c ≤ n
  high : n < 10 ^ (c + 1)
  near : |q - n * 10 ^ unit| ≤ 10 ^ unit / 2

variable {c n : ℕ} {unit : ℤ}

theorem round_eq (hden : 0 < den) (hlow : (10 : ℚ) ^ (unit + c) ≤ num / den)
    (hhigh : (num : ℚ) / den < 10 ^ (unit + c + 1))
    (hnear : |(num : ℚ) / den - n * 10 ^ unit| < 10 ^ unit / 2) :
    round (c + 1) num den = ofUnits n unit := by
  have hunit : leading num den - ((c + 1 : ℕ) : ℤ) + 1 = unit := by
    rw [leading_eq hden hlow hhigh]
    push_cast
    ring
  obtain ⟨hscaled, hpos⟩ := @inUnits_spec num _ hden unit
  have hten : (0 : ℚ) < 10 ^ unit := zpow_pos (by decide) unit
  unfold round
  simp only [hunit]
  rw [roundHalfEven_eq hpos]
  rw [hscaled]
  have hplace : (num : ℚ) / den / 10 ^ unit - n = (num / den - n * 10 ^ unit) / 10 ^ unit := by
    rw [sub_div, mul_div_cancel_right₀ _ hten.ne']
  rw [hplace, abs_div, abs_of_pos hten, div_lt_iff₀ hten]
  linarith

theorem pow_add_eq (unit : ℤ) (c : ℕ) : (10 : ℚ) ^ (unit + c) = 10 ^ c * 10 ^ unit := by
  rw [zpow_add₀ (by decide), zpow_natCast, mul_comm]

theorem abs_sub_mul_le {q U b : ℚ} (hU : 0 < U) (n : ℚ) :
    |n - q / U| ≤ b ↔ |q - n * U| ≤ b * U := by
  have hplace : n - q / U = -((q - n * U) / U) := by
    rw [sub_div, mul_div_cancel_right₀ _ hU.ne', neg_sub]
  rw [hplace, abs_neg, abs_div, abs_of_pos hU, div_le_iff₀ hU]

/-- **The first digits of a number** are those of the nearest number that has no more digits. -/
theorem exists_round (hnum : 0 < num) (hden : 0 < den) (c : ℕ) :
    ∃ n unit, IsNearest c (num / den) n unit ∧ round (c + 1) num den = ofUnits n unit := by
  obtain ⟨hlow, hhigh⟩ := leading_spec hnum hden
  obtain ⟨unit, hunit⟩ : ∃ unit : ℤ, leading num den - ((c + 1 : ℕ) : ℤ) + 1 = unit := ⟨_, rfl⟩
  have hleading : leading num den = unit + c := by
    rw [← hunit]
    push_cast
    ring
  obtain ⟨hscaled, hpos⟩ := @inUnits_spec num _ hden unit
  have hten : (0 : ℚ) < 10 ^ unit := zpow_pos (by decide) unit
  have hround := @abs_roundHalfEven_sub_le (inUnits num den unit).1 _ hpos
  rw [hscaled] at hround
  unfold round
  simp only [hunit]
  generalize roundHalfEven (inUnits num den unit).1 (inUnits num den unit).2 = n at *
  generalize (num : ℚ) / den = q at *
  rw [hleading, pow_add_eq] at hlow
  rw [hleading, add_assoc, ← Nat.cast_add_one, pow_add_eq] at hhigh
  have hlow' : (10 : ℚ) ^ c ≤ q / 10 ^ unit := (le_div_iff₀ hten).2 hlow
  have hhigh' : q / 10 ^ unit < 10 ^ (c + 1) := (div_lt_iff₀ hten).2 hhigh
  have hbounds := abs_le.1 hround
  have hn : 10 ^ c ≤ n := by
    have : ((10 ^ c : ℕ) : ℚ) < (n + 1 : ℕ) := by
      push_cast
      linarith
    exact Nat.le_of_lt_succ (Nat.cast_lt.1 this)
  have hn' : n ≤ 10 ^ (c + 1) := by
    have : (n : ℚ) < (10 ^ (c + 1) + 1 : ℕ) := by
      push_cast
      linarith
    exact Nat.le_of_lt_succ (Nat.cast_lt.1 this)
  have hnear : |q - n * 10 ^ unit| ≤ 10 ^ unit / 2 := by
    have := (abs_sub_mul_le hten (n : ℚ)).1 hround
    linarith
  rcases Nat.lt_or_eq_of_le hn' with hlt | rfl
  · exact ⟨n, unit, ⟨hn, hlt, hnear⟩, rfl⟩
  · -- Rounding up to a power of ten gives the digits of the next unit.
    refine ⟨10 ^ c, unit + 1, ⟨le_rfl, Nat.pow_lt_pow_right (by decide) (Nat.lt_succ_self c), ?_⟩,
      by rw [Nat.pow_succ, ofUnits_mul_ten (Nat.pow_pos (by decide))]⟩
    have hsame : ((10 ^ c : ℕ) : ℚ) * 10 ^ (unit + 1) = (10 ^ (c + 1) : ℕ) * 10 ^ unit := by
      rw [zpow_add_one₀ (by decide)]
      push_cast
      ring
    rw [hsame, zpow_add_one₀ (by decide)]
    linarith

theorem round_of_le (hden : 0 < den) (hn : n < 10 ^ (c + 1))
    (hlow : (10 : ℚ) ^ c * 10 ^ unit ≤ num / den)
    (hnear : |(num : ℚ) / den - n * 10 ^ unit| < 10 ^ unit / 2) :
    round (c + 1) num den = ofUnits n unit := by
  have hten : (0 : ℚ) < 10 ^ unit := zpow_pos (by decide) unit
  refine round_eq hden (by rwa [pow_add_eq]) ?_ hnear
  rw [add_assoc, ← Nat.cast_add_one, pow_add_eq]
  have hn' : (n : ℚ) + 1 ≤ 10 ^ (c + 1) := by exact_mod_cast hn
  have hbound : ((n : ℚ) + 1) * 10 ^ unit ≤ 10 ^ (c + 1) * 10 ^ unit := by gcongr
  have := (abs_lt.1 hnear).2
  linarith

/-- **What is close to a number of few digits has its first digits.** Below a power of ten the units
are ten times smaller, so that half a unit away is not close enough there. -/
theorem round_of_close (hden : 0 < den) (hlow : 10 ^ c ≤ n) (hn : n < 10 ^ (c + 1))
    (hnear : |(num : ℚ) / den - n * 10 ^ unit| < 10 ^ unit / 20) :
    round (c + 1) num den = ofUnits n unit := by
  have hten : (0 : ℚ) < 10 ^ unit := zpow_pos (by decide) unit
  by_cases habove : (10 : ℚ) ^ c * 10 ^ unit ≤ num / den
  · exact round_of_le hden hn habove (by linarith)
  have hbelow := not_le.1 habove
  have hbounds := abs_lt.1 hnear
  obtain rfl : n = 10 ^ c := by
    refine Nat.le_antisymm (Nat.le_of_not_lt fun hlt => ?_) hlow
    have hmore : (10 : ℚ) ^ c + 1 ≤ n := by exact_mod_cast hlt
    have : ((10 : ℚ) ^ c + 1) * 10 ^ unit ≤ n * 10 ^ unit := by gcongr
    linarith
  have hone : (1 : ℚ) ≤ 10 ^ c := one_le_pow₀ (by decide)
  have hunit : (10 : ℚ) ^ unit = 10 ^ (unit - 1) * 10 := by
    rw [← zpow_add_one₀ (by decide), sub_add_cancel]
  have hsmall : (0 : ℚ) < 10 ^ (unit - 1) := zpow_pos (by decide) _
  push_cast at hnear hbounds
  rw [hunit] at hbelow hnear hbounds
  have hdigits : round (c + 1) num den = ofUnits (10 ^ c * 10) (unit - 1) := by
    refine round_eq hden ?_ ?_ ?_
    · rw [pow_add_eq]
      nlinarith
    · rw [add_right_comm, sub_add_cancel, pow_add_eq, hunit]
      linarith
    · push_cast
      rw [mul_assoc, mul_comm (10 : ℚ) (10 ^ (unit - 1))]
      linarith
  rw [hdigits, ofUnits_mul_ten (Nat.pow_pos (by decide)), sub_add_cancel]

/-! ## Rounding keeps to powers of ten -/

namespace IsNearest

variable {q : ℚ} (h : IsNearest c q n unit)

include h

theorem size_lt : (n : ℚ) * 10 ^ unit < 10 ^ (c + 1) * 10 ^ unit := by
  have hten : (0 : ℚ) < 10 ^ unit := zpow_pos (by decide) unit
  have : (n : ℚ) < 10 ^ (c + 1) := by exact_mod_cast h.high
  gcongr

/-- Beyond a power of ten there is room for nearly one unit. -/
theorem add_unit_le {r : ℤ} (hr : (10 : ℚ) ^ r < n * 10 ^ unit) :
    10 ^ r + 9 / 10 * 10 ^ unit ≤ (n : ℚ) * 10 ^ unit := by
  have hten : (0 : ℚ) < 10 ^ unit := zpow_pos (by decide) unit
  by_cases hle : unit ≤ r
  · obtain ⟨k, rfl⟩ : ∃ k : ℕ, r = unit + k := ⟨(r - unit).toNat, by omega⟩
    rw [pow_add_eq] at hr ⊢
    have hless : (10 : ℚ) ^ k < n := lt_of_mul_lt_mul_right hr hten.le
    have hmore : (10 : ℚ) ^ k + 1 ≤ n := by exact_mod_cast hless
    have : ((10 : ℚ) ^ k + 1) * 10 ^ unit ≤ n * 10 ^ unit := by gcongr
    linarith
  · have hsmall : (10 : ℚ) ^ r ≤ 10 ^ (unit - 1) := zpow_le_zpow_right₀ (by decide) (by omega)
    have hunit : (10 : ℚ) ^ unit = 10 ^ (unit - 1) * 10 := by
      rw [← zpow_add_one₀ (by decide), sub_add_cancel]
    have hone : (1 : ℚ) ≤ n := by exact_mod_cast (Nat.pow_pos (by decide)).trans_le h.low
    have : 1 * (10 : ℚ) ^ unit ≤ n * 10 ^ unit := by gcongr
    linarith

/-- Below a power of ten there is room for one unit. -/
theorem size_add_unit_le {r : ℤ} (hr : (n : ℚ) * 10 ^ unit < 10 ^ r) :
    (n : ℚ) * 10 ^ unit + 10 ^ unit ≤ 10 ^ r := by
  have hten : (0 : ℚ) < 10 ^ unit := zpow_pos (by decide) unit
  have hone : (1 : ℚ) ≤ n := by exact_mod_cast (Nat.pow_pos (by decide)).trans_le h.low
  have hle : unit ≤ r := by
    have : (10 : ℚ) ^ unit < 10 ^ r := by
      calc (10 : ℚ) ^ unit = 1 * 10 ^ unit := (one_mul _).symm
        _ ≤ n * 10 ^ unit := by gcongr
        _ < 10 ^ r := hr
    exact ((zpow_lt_zpow_iff_right₀ (by decide : (1 : ℚ) < 10)).1 this).le
  obtain ⟨k, rfl⟩ : ∃ k : ℕ, r = unit + k := ⟨(r - unit).toNat, by omega⟩
  rw [pow_add_eq] at hr ⊢
  have hless : (n : ℚ) < 10 ^ k := lt_of_mul_lt_mul_right hr hten.le
  have hmore : (n : ℚ) + 1 ≤ 10 ^ k := by exact_mod_cast hless
  have : ((n : ℚ) + 1) * 10 ^ unit ≤ 10 ^ k * 10 ^ unit := by gcongr
  linarith

/-- What is no less than a power of ten has no smaller digits. -/
theorem le_size {r : ℤ} (hq : 10 ^ r ≤ q) : (10 : ℚ) ^ r ≤ n * 10 ^ unit := by
  refine not_lt.1 fun hless => ?_
  have hten : (0 : ℚ) < 10 ^ unit := zpow_pos (by decide) unit
  have hbelow := h.size_add_unit_le hless
  have hnear := (abs_le.1 h.near).2
  linarith

/-- Only one number of digits is a power of ten. -/
theorem eq_of_size_eq {r : ℤ} (hr : (n : ℚ) * 10 ^ unit = 10 ^ r) : n = 10 ^ c ∧ unit = r - c := by
  have hten : (0 : ℚ) < 10 ^ unit := zpow_pos (by decide) unit
  have hlow : (10 : ℚ) ^ c ≤ n := by exact_mod_cast h.low
  have hle : (10 : ℚ) ^ (unit + c) ≤ 10 ^ r := by
    rw [pow_add_eq, ← hr]
    gcongr
  have hlt : (10 : ℚ) ^ r < 10 ^ (unit + (c + 1 : ℕ)) := by
    rw [pow_add_eq, ← hr]
    exact h.size_lt
  have h₁ := (zpow_le_zpow_iff_right₀ (by decide : (1 : ℚ) < 10)).1 hle
  have h₂ := (zpow_lt_zpow_iff_right₀ (by decide : (1 : ℚ) < 10)).1 hlt
  push_cast at h₂
  obtain rfl : r = unit + c := by omega
  rw [pow_add_eq] at hr
  refine ⟨?_, by omega⟩
  exact_mod_cast mul_right_cancel₀ hten.ne' hr

end IsNearest

end Digits

end NetlistPrep
