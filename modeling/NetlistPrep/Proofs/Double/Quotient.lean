import NetlistPrep.Proofs.Double

/-!
# The size and the sign of quotients

A double lies below a power of two that its mantissa and its exponent give (`topExponent`). Rounding
raises that power by one at most, so a quotient is finite where the difference of the two powers is
not too large (`isFinite_div`).

Rounding keeps signs. So a quotient that is a number has the sign that its operands give
(`sign?_div_cases`), a positive factor or divisor leaves the sign as it is
(`sign?_mul_of_isNormal`, `sign?_div_of_isNormal`), and a number read off decimal digits is positive
(`sign?_ofScientific`).
-/

namespace NetlistPrep.Double

open Float.Model UnpackedFloat

/-- The power of two that the magnitude of a finite double lies below; zero is below all of them. -/
def topExponent : UnpackedFloat → Int
  | .finite _ m e _ => totalExponent m e
  | _ => -1074

/-- A positive double with all its digits. -/
def IsNormal : UnpackedFloat → Prop
  | .finite .positive m _ _ => m.log2 = 52
  | _ => False

instance (u : UnpackedFloat) : Decidable (IsNormal u) :=
  match u with
  | .finite .positive m _ _ => inferInstanceAs (Decidable (m.log2 = 52))
  | .finite .negative .. | .zero _ | .infinity _ | .notANumber => inferInstanceAs (Decidable False)

theorem IsNormal.exists_eq {u : UnpackedFloat} (h : IsNormal u) :
    ∃ m e hm, u = .finite .positive m e hm ∧ m.log2 = 52 := by
  cases u with
  | finite s m e hm =>
    cases s with
    | positive => exact ⟨m, e, hm, rfl, h⟩
    | negative => exact h.elim
  | _ => exact h.elim

theorem Canonical.log2_le {s : Sign} {m : Nat} {e : Int} {hm : 0 < m}
    (h : Canonical (.finite s m e hm)) : m.log2 ≤ 52 ∧ -1074 ≤ e ∧ e ≤ 971 := by
  have hlog : m < 2 ^ 53 ∧ -1074 ≤ e ∧ e ≤ 971 := by
    cases h <;> omega
  have := (Nat.log2_lt (by omega)).2 hlog.1
  omega

theorem Canonical.abs {u : UnpackedFloat} (h : Canonical u) : Canonical u.abs := by
  cases h with
  | notANumber => exact .notANumber
  | infinity s => exact .infinity _
  | zero s => exact .zero _
  | subnormal s hm hhigh => exact .subnormal _ hm hhigh
  | normal s hm hlow hhigh helow hehigh => exact .normal _ hm hlow hhigh helow hehigh

variable {x y : Float}

/-- A finite double is zero, or it has all its parts. -/
theorem finite_cases (hx : x.isFinite = true) : (∃ s, x.toModel.unpack = .zero s) ∨
    ∃ s m e hm, x.toModel.unpack = .finite s m e hm := by
  have hxu : x.toModel.unpack.isFinite = true := hx
  cases hu : x.toModel.unpack with
  | notANumber | infinity =>
    rw [hu] at hxu
    cases hxu
  | zero s => exact .inl ⟨s, rfl⟩
  | finite s m e hm => exact .inr ⟨s, m, e, hm, rfl⟩

/-- A double that is not finite is no number, or it is an infinity. -/
theorem not_finite_cases (hx : x.isFinite = false) :
    x.toModel.unpack = .notANumber ∨ ∃ s, x.toModel.unpack = .infinity s := by
  have hxu : x.toModel.unpack.isFinite = false := hx
  cases hu : x.toModel.unpack with
  | notANumber => exact .inl rfl
  | infinity s => exact .inr ⟨s, rfl⟩
  | zero | finite =>
    rw [hu] at hxu
    cases hxu

theorem unpack_abs (x : Float) : x.abs.toModel.unpack = x.toModel.unpack.abs :=
  unpack_pack (canonical_unpack x.toModel).abs

theorem topExponent_le (x : Float) : topExponent x.toModel.unpack ≤ 1024 := by
  have h := canonical_unpack x.toModel
  cases hx : x.toModel.unpack with
  | finite s m e hm =>
    rw [hx] at h
    have := h.log2_le
    simp only [topExponent, totalExponent]
    omega
  | _ => simp only [topExponent]; omega

theorem le_iff_compare : y ≤ x ↔
    (y.toModel.unpack.compare x.toModel.unpack).any (·.isLE) = true := decide_eq_true_iff

/-- **A magnitude that a normal double is not below has no larger size.** -/
theorem topExponent_le_of_not_le (hy : IsNormal y.toModel.unpack) (hx : x.isFinite = true)
    (h : ¬ y ≤ x.abs) : topExponent x.toModel.unpack ≤ topExponent y.toModel.unpack := by
  obtain ⟨m, e, hm, hyu, hlog⟩ := hy.exists_eq
  have hyc := canonical_unpack y.toModel
  have hxc := canonical_unpack x.toModel
  rw [le_iff_compare, unpack_abs, hyu] at h
  rw [hyu] at hyc ⊢
  have hye := hyc.log2_le
  rcases finite_cases hx with ⟨s, hxu⟩ | ⟨s, m', e', hm', hxu⟩
  · rw [hxu]
    simp only [topExponent, totalExponent]
    omega
  · rw [hxu] at h hxc ⊢
    have hxe := hxc.log2_le
    have hle : e' ≤ e := by
      refine Int.not_lt.1 fun hlt => ?_
      have hcompare : compare e e' = .lt := Int.compare_eq_lt.2 (by omega)
      simp [UnpackedFloat.abs, UnpackedFloat.compare, hcompare, Ordering.then] at h
    simp only [topExponent, totalExponent]
    omega

/-! ## Rounding -/

theorem mantissa_ofMantissaAndAccuracy (m : Nat) (acc : Accuracy) :
    (ExtendedMantissa.ofMantissaAndAccuracy m acc).mantissa = m := by
  cases acc with
  | exact => rfl
  | inexact o => cases o <;> rfl

theorem mantissa_shiftRight (em : ExtendedMantissa) (k : Nat) :
    (em >>> k).mantissa = em.mantissa / 2 ^ k := by
  induction k with
  | zero => exact (Nat.div_one _).symm
  | succ k ih =>
    show (em >>> k).mantissa / 2 = _
    rw [ih, Nat.div_div_eq_div_mul, Nat.pow_succ]

theorem roundedMantissa_le (em : ExtendedMantissa) : em.roundedMantissa ≤ em.mantissa + 1 := by
  obtain ⟨m, r, s⟩ := em
  cases r <;> cases s <;>
    simp only [ExtendedMantissa.roundedMantissa, ExtendedMantissa.accuracy,
      Accuracy.roundToNearestEven] <;> omega

theorem targetExponent_eq (t : Int) : Format.binary64.targetExponent t = max (t - 53) (-1074) := rfl

/-- Rounding what is left of a mantissa makes it longer by one digit at most. -/
theorem log2_le_of_le_div_add_one {r m k : Nat} (h : r ≤ m / 2 ^ k + 1) :
    r.log2 ≤ m.log2 + 1 - k := by
  by_cases hr : r = 0
  · simp [hr]
  refine Nat.le_of_lt_succ ((Nat.log2_lt hr).2 ?_)
  by_cases hk : k ≤ m.log2
  · have hm : m < 2 ^ (m.log2 + 1) := Nat.lt_log2_self
    have hdiv : m / 2 ^ k < 2 ^ (m.log2 + 1 - k) := by
      rw [Nat.div_lt_iff_lt_mul (Nat.two_pow_pos k), ← Nat.pow_add]
      rwa [show m.log2 + 1 - k + k = m.log2 + 1 by omega]
    calc r ≤ m / 2 ^ k + 1 := h
      _ ≤ 2 ^ (m.log2 + 1 - k) := hdiv
      _ < 2 ^ (m.log2 + 1 - k + 1) := Nat.pow_lt_pow_right (by decide) (by omega)
  · have hdiv : m / 2 ^ k = 0 := by
      refine Nat.div_eq_of_lt (Nat.lt_of_lt_of_le Nat.lt_log2_self ?_)
      exact Nat.pow_le_pow_right (by decide) (by omega)
    rw [hdiv] at h
    calc r ≤ 1 := by omega
      _ < 2 ^ (m.log2 + 1 - k + 1) := Nat.one_lt_two_pow (by omega)

theorem shiftToTargetExponent_snd (m : Nat) (e : Int) (acc : Accuracy) :
    (shiftToTargetExponent Format.binary64 m e acc).2 =
      max e (max (totalExponent m e - 53) (-1074)) := by
  simp only [shiftToTargetExponent, shiftToExponent, targetExponent_eq]
  omega

theorem mantissa_shiftToTargetExponent (m : Nat) (e : Int) (acc : Accuracy) :
    (shiftToTargetExponent Format.binary64 m e acc).1.mantissa =
      m / 2 ^ ((shiftToTargetExponent Format.binary64 m e acc).2 - e).toNat := by
  simp only [shiftToTargetExponent, shiftToExponent, mantissa_shiftRight,
    mantissa_ofMantissaAndAccuracy]
  congr 2
  omega

/-- **Rounding keeps the sign and raises the size by one at most.** -/
theorem roundWithAccuracy_cases (s : Sign) (m : Nat) (e : Int) (acc : Accuracy) :
    roundWithAccuracy Format.binary64 s m e acc = .zero s ∨
      ∃ m' e' hm', roundWithAccuracy Format.binary64 s m e acc = .finite s m' e' hm' ∧
        e' ≤ max e (max (totalExponent m e - 52) (-1074)) := by
  have hexponent := shiftToTargetExponent_snd m e acc
  have hmantissa := mantissa_shiftToTargetExponent m e acc
  unfold roundWithAccuracy
  generalize shiftToTargetExponent Format.binary64 m e acc = first at *
  obtain ⟨em, e₁⟩ := first
  have hagain := shiftToTargetExponent_snd em.roundedMantissa e₁ .exact
  simp only at hexponent hmantissa hagain ⊢
  split
  · exact .inl rfl
  · rename_i hne
    refine .inr ⟨_, _, Nat.pos_of_ne_zero hne, rfl, ?_⟩
    have hlog := log2_le_of_le_div_add_one (hmantissa ▸ roundedMantissa_le em)
    rw [hagain]
    simp only [totalExponent] at *
    omega

theorem isFinite_roundWithAccuracy (s : Sign) (m : Nat) (e : Int) (acc : Accuracy) :
    (roundWithAccuracy Format.binary64 s m e acc).isFinite = true := by
  rcases roundWithAccuracy_cases s m e acc with h | ⟨_, _, _, h, -⟩ <;> rw [h] <;> rfl

/-! ## Quotients -/

theorem log2_shiftLeft_div_le {m m' k : Nat} (hm' : 0 < m') :
    (m <<< k / m').log2 ≤ m.log2 + k - m'.log2 := by
  by_cases h : m <<< k / m' = 0
  · rw [h]
    exact Nat.zero_le _
  have hlt : m <<< k / m' < 2 ^ (m.log2 + 1 + k - m'.log2) := by
    rw [Nat.div_lt_iff_lt_mul hm', Nat.shiftLeft_eq]
    calc m * 2 ^ k < 2 ^ (m.log2 + 1) * 2 ^ k :=
          Nat.mul_lt_mul_of_pos_right Nat.lt_log2_self (Nat.two_pow_pos k)
      _ = 2 ^ (m.log2 + 1 + k) := (Nat.pow_add ..).symm
      _ ≤ 2 ^ (m.log2 + 1 + k - m'.log2 + m'.log2) := Nat.pow_le_pow_right (by decide) (by omega)
      _ = 2 ^ (m.log2 + 1 + k - m'.log2) * 2 ^ m'.log2 := Nat.pow_add ..
      _ ≤ 2 ^ (m.log2 + 1 + k - m'.log2) * m' :=
          Nat.mul_le_mul_left _ (Nat.log2_self_le (by omega))
  have := (Nat.log2_lt h).2 hlt
  omega

theorem unpack_div (x y : Float) : (x / y).toModel.unpack = (Float.Model.pack
    (UnpackedFloat.div Format.binary64 x.toModel.unpack y.toModel.unpack)).unpack := rfl

/-- **A quotient is finite** unless it is too large. -/
theorem isFinite_div (hx : x.isFinite = true) (hy : IsNormal y.toModel.unpack)
    (h : topExponent x.toModel.unpack - topExponent y.toModel.unpack ≤ 1021) :
    (x / y).isFinite = true := by
  show (x / y).toModel.unpack.isFinite = true
  obtain ⟨m', e', hm', hyu, -⟩ := hy.exists_eq
  rw [unpack_div]
  rw [hyu] at h ⊢
  rcases finite_cases hx with ⟨s, hxu⟩ | ⟨s, m, e, hm, hxu⟩ <;> rw [hxu] at h ⊢
  · have hdiv : UnpackedFloat.div Format.binary64 (.zero s) (.finite .positive m' e' hm') =
        .zero (s / .positive) := rfl
    rw [hdiv, unpack_pack (.zero _)]
    rfl
  · simp only [topExponent, totalExponent] at h
    simp only [UnpackedFloat.div, divCore, targetExponent_eq, totalExponent]
    generalize hlow : min (e - e') (max ((m.log2 + 1 + e) - (m'.log2 + 1 + e') - 53) (-1074)) = low
    have hlog := log2_shiftLeft_div_le (m := m) (k := (e - e' - low).toNat) hm'
    rcases roundWithAccuracy_cases (s / .positive) (m <<< (e - e' - low).toNat / m') low
      (accuracyOfFraction (m <<< (e - e' - low).toNat % m') m') with hz | ⟨_, _, hpos, hr, hle⟩
    · rw [hz, unpack_pack (.zero _)]
      rfl
    · rw [hr]
      refine isFinite_unpack_pack _ hpos ?_
      simp only [totalExponent] at hle
      omega

theorem not_isFinite_div (hx : x.isFinite = false) (hy : IsNormal y.toModel.unpack) :
    (x / y).isFinite = false := by
  show (x / y).toModel.unpack.isFinite = false
  obtain ⟨m, e, hm, hyu, -⟩ := hy.exists_eq
  rw [unpack_div, hyu]
  rcases not_finite_cases hx with hxu | ⟨s, hxu⟩ <;> rw [hxu]
  · show (Float.Model.pack .notANumber).unpack.isFinite = false
    rw [unpack_pack .notANumber]
    rfl
  · show (Float.Model.pack (.infinity (s / .positive))).unpack.isFinite = false
    rw [unpack_pack (.infinity _)]
    rfl

/-! ## Signs -/

theorem sign?_roundWithAccuracy (s : Sign) (m : Nat) (e : Int) (acc : Accuracy) :
    sign? (roundWithAccuracy Format.binary64 s m e acc) = some s := by
  rcases roundWithAccuracy_cases s m e acc with h | ⟨_, _, _, h, -⟩ <;> rw [h] <;> rfl

/-- A quotient that is a number has the sign that the signs of its operands give. -/
theorem sign?_div_cases (x y : Float) : sign? (x / y).toModel.unpack = none ∨
    ∃ s t, sign? x.toModel.unpack = some s ∧ sign? y.toModel.unpack = some t ∧
      sign? (x / y).toModel.unpack = some (s / t) := by
  rw [unpack_div, sign?_unpack_pack]
  cases x.toModel.unpack with
  | notANumber => exact .inl rfl
  | infinity s =>
    cases y.toModel.unpack with
    | zero t | finite t => exact .inr ⟨s, t, rfl, rfl, rfl⟩
    | notANumber | infinity t => exact .inl rfl
  | zero s =>
    cases y.toModel.unpack with
    | infinity t | finite t => exact .inr ⟨s, t, rfl, rfl, rfl⟩
    | notANumber | zero t => exact .inl rfl
  | finite s m e hm =>
    cases y.toModel.unpack with
    | infinity t | zero t => exact .inr ⟨s, t, rfl, rfl, rfl⟩
    | notANumber => exact .inl rfl
    | finite t => exact .inr ⟨s, t, rfl, rfl, sign?_roundWithAccuracy _ _ _ _⟩

theorem sign?_div_of_isNormal (x : Float) (hy : IsNormal y.toModel.unpack) :
    sign? (x / y).toModel.unpack = sign? x.toModel.unpack := by
  obtain ⟨m', e', hm', hyu, -⟩ := hy.exists_eq
  rw [unpack_div, sign?_unpack_pack, hyu]
  cases x.toModel.unpack with
  | notANumber => rfl
  | infinity s | zero s => cases s <;> rfl
  | finite s => exact (sign?_roundWithAccuracy _ _ _ _).trans (by cases s <;> rfl)

theorem sign?_mul_of_isNormal (x : Float) (hy : IsNormal y.toModel.unpack) :
    sign? (x * y).toModel.unpack = sign? x.toModel.unpack := by
  obtain ⟨m', e', hm', hyu, -⟩ := hy.exists_eq
  have hmul : (x * y).toModel.unpack = (Float.Model.pack
    (UnpackedFloat.mul Format.binary64 x.toModel.unpack y.toModel.unpack)).unpack := rfl
  rw [hmul, sign?_unpack_pack, hyu]
  cases x.toModel.unpack with
  | notANumber => rfl
  | infinity s | zero s => cases s <;> rfl
  | finite s => exact (sign?_roundWithAccuracy _ _ _ _).trans (by cases s <;> rfl)

theorem sign?_toFloat (n : UInt64) : sign? n.toFloat.toModel.unpack = some .positive := by
  have hunpack : n.toFloat.toModel.unpack = (Float.Model.pack
    (UnpackedFloat.normalize Format.binary64 n.toNat 0 .positive)).unpack := rfl
  rw [hunpack, sign?_unpack_pack]
  unfold UnpackedFloat.normalize
  split
  · rename_i h
    rw [Int.compare_eq_lt] at h
    omega
  · rfl
  · exact sign?_roundWithAccuracy _ _ _ _

theorem isNormal_powerOfTen {e : Nat} (h : e < Float.exactlyRepresentablePowersOfTen.size) :
    IsNormal (Float.exactlyRepresentablePowersOfTen[e]).toModel.unpack := by
  have hall : ∀ e : Fin 23, IsNormal (Float.exactlyRepresentablePowersOfTen[e]).toModel.unpack := by
    decide +kernel
  exact hall ⟨e, h⟩

/-- **A number read off decimal digits has a positive sign.** -/
theorem sign?_ofScientific (m : Nat) (negative : Bool) (e : Nat) :
    sign? (Float.ofScientific m negative e).toModel.unpack = some .positive := by
  unfold Float.ofScientific
  split
  · split
    · rw [sign?_div_of_isNormal _ (isNormal_powerOfTen _), sign?_toFloat]
    · rw [sign?_mul_of_isNormal _ (isNormal_powerOfTen _), sign?_toFloat]
  · generalize (if negative then Int.negOfNat e else Int.ofNat e) = scale
    show sign? (Float.Model.pack (UnpackedFloat.ofScientific Format.binary64 m scale)).unpack = _
    rw [sign?_unpack_pack]
    unfold UnpackedFloat.ofScientific
    split
    · rfl
    · split
      · rfl
      · split
        · rfl
        · split
          · exact sign?_roundWithAccuracy _ _ _ _
          · exact sign?_roundWithAccuracy _ _ _ _

end NetlistPrep.Double
