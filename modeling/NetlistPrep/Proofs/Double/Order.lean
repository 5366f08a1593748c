import NetlistPrep.Proofs.Double.Quotient

/-!
# The order of doubles, and what is not finite

Doubles are compared in unpacked form, where what is no number compares with nothing. Two numbers
always compare, one way or the other way round (`le_of_not_lt`). A double is below zero if its sign
is negative and it is not zero (`lt_zero_iff`); a positive divisor leaves the sign as it is
(`sign?_div_of_pos`).

What is not finite stays so under arithmetic (`not_isFinite_mul`, `not_isFinite_sub`), its root is
no number or the positive infinity, and what is left when that is taken away is not positive
(`isBoundless_sqrt`, `isBoundless_sub`, `not_pos_of_isBoundless`).
-/

namespace NetlistPrep.Double

open Float.Model UnpackedFloat

variable {x y : Float}

theorem lt_iff_compare : x < y ↔ x.toModel.unpack.compare y.toModel.unpack = some .lt := by
  have hlt : x < y ↔ (x.toModel.unpack.compare y.toModel.unpack == some .lt) = true :=
    decide_eq_true_iff
  exact hlt.trans beq_iff_eq

theorem compare_sign_swap (s t : Sign) : compare t s = (compare s t).swap := by
  cases s <;> cases t <;> rfl

theorem compare_finite_swap (m m' : Nat) (e e' : Int) :
    (compare e' e).then (compare m' m) = ((compare e e').then (compare m m')).swap := by
  rw [Ordering.swap_then, ← Int.compare_swap, ← Nat.compare_swap]

/-- **A comparison the other way round** has the opposite outcome. -/
theorem compare_swap (u v : UnpackedFloat) : v.compare u = (u.compare v).map Ordering.swap := by
  cases u with
  | notANumber => cases v with
    | infinity t => cases t <;> rfl
    | _ => rfl
  | infinity s => cases v with
    | notANumber => cases s <;> rfl
    | infinity t => exact congrArg some (compare_sign_swap s t)
    | zero t => cases s <;> rfl
    | finite t => cases s <;> cases t <;> rfl
  | zero s => cases v with
    | infinity t => cases t <;> rfl
    | finite t => cases t <;> rfl
    | _ => rfl
  | finite s m e hm => cases v with
    | notANumber => cases s <;> rfl
    | infinity t => cases s <;> cases t <;> rfl
    | zero t => cases s <;> rfl
    | finite t m' e' hm' =>
      cases s <;> cases t
      · exact congrArg (fun o => some o.swap) (compare_finite_swap m m' e e')
      · rfl
      · rfl
      · exact congrArg some (compare_finite_swap m m' e e')

theorem isSome_compare {u v : UnpackedFloat} (hu : u.isNaN = false) (hv : v.isNaN = false) :
    (u.compare v).isSome = true := by
  cases u with
  | notANumber => exact absurd hu (by decide)
  | infinity s => cases v with
    | notANumber => exact absurd hv (by decide)
    | _ => cases s <;> rfl
  | zero s => cases v with
    | notANumber => exact absurd hv (by decide)
    | infinity t | finite t => cases t <;> rfl
    | zero => rfl
  | finite s => cases v with
    | notANumber => exact absurd hv (by decide)
    | infinity t | finite t => cases s <;> cases t <;> rfl
    | zero => cases s <;> rfl

theorem not_lt_of_le (h : y ≤ x) : ¬ x < y := by
  rw [lt_iff_compare]
  intro hlt
  rw [le_iff_compare, compare_swap, hlt] at h
  exact absurd h (by decide)

/-- **Two numbers compare,** one way or the other way round. -/
theorem le_of_not_lt (hx : x.isNaN = false) (hy : y.isNaN = false) (h : ¬ x < y) : y ≤ x := by
  obtain ⟨o, ho⟩ := Option.isSome_iff_exists.1 (isSome_compare hx hy)
  rw [lt_iff_compare, ho, Option.some_inj] at h
  rw [le_iff_compare, compare_swap, ho]
  cases o with
  | lt => exact absurd rfl h
  | eq | gt => rfl

theorem not_isNaN_of_lt (h : x < y) : x.isNaN = false ∧ y.isNaN = false := by
  show x.toModel.unpack.isNaN = false ∧ y.toModel.unpack.isNaN = false
  rw [lt_iff_compare] at h
  constructor
  · revert h
    cases x.toModel.unpack with
    | notANumber => exact fun h => absurd h (by simp [UnpackedFloat.compare])
    | _ => exact fun _ => rfl
  · revert h
    cases y.toModel.unpack with
    | notANumber =>
      cases x.toModel.unpack <;> exact fun h => absurd h (by simp [UnpackedFloat.compare])
    | _ => exact fun _ => rfl

/-! ## Signs -/

/-- What is no number is what has no sign. -/
theorem isNaN_eq (x : Float) : x.isNaN = (sign? x.toModel.unpack).isNone := by
  show x.toModel.unpack.isNaN = _
  cases x.toModel.unpack <;> rfl

/-- Zero, with either sign. -/
def IsZero (u : UnpackedFloat) : Prop := ∃ s, u = .zero s

theorem not_isZero_infinity (s : Sign) : ¬ IsZero (.infinity s) := by
  rintro ⟨t, ht⟩
  cases ht

theorem not_isZero_finite (s : Sign) {m : Nat} (e : Int) (hm : 0 < m) :
    ¬ IsZero (.finite s m e hm) := by
  rintro ⟨t, ht⟩
  cases ht

theorem lt_zero_iff :
    x < 0 ↔ sign? x.toModel.unpack = some .negative ∧ ¬ IsZero x.toModel.unpack := by
  have hzero : (0 : Float).toModel.unpack = .zero .positive := by rfl
  rw [lt_iff_compare, hzero]
  cases x.toModel.unpack with
  | notANumber => simp [UnpackedFloat.compare, sign?]
  | zero s => simp [UnpackedFloat.compare, IsZero]
  | infinity s | finite s => cases s <;> simp [UnpackedFloat.compare, sign?, IsZero]

theorem zero_le_iff (hx : x.isNaN = false) : 0 ≤ x ↔ ¬ x < 0 :=
  ⟨not_lt_of_le, le_of_not_lt hx (by rfl)⟩

/-! ## What is not finite -/

/-- What is not finite is packed as it is. -/
theorem unpack_pack_of_not_isFinite {u : UnpackedFloat} (h : u.isFinite = false) :
    (Float.Model.pack u).unpack = u := by
  refine unpack_pack ?_
  cases u with
  | notANumber => exact .notANumber
  | infinity s => exact .infinity s
  | zero | finite => exact absurd h (by simp [UnpackedFloat.isFinite])

theorem not_isFinite_mul {m : Nat} {e : Int} {hm : 0 < m}
    (hx : x.toModel.unpack = .finite .positive m e hm) (hy : y.isFinite = false) :
    (x * y).isFinite = false := by
  have hmul : (UnpackedFloat.mul Format.binary64 x.toModel.unpack y.toModel.unpack).isFinite =
      false := by
    rw [hx]
    rcases not_finite_cases hy with hyu | ⟨t, hyu⟩ <;> rw [hyu] <;> rfl
  show (Float.Model.pack _).unpack.isFinite = false
  rwa [unpack_pack_of_not_isFinite hmul]

theorem not_isFinite_sub (x : Float) (hy : y.isFinite = false) : (x - y).isFinite = false := by
  have hsub : (UnpackedFloat.sub Format.binary64 x.toModel.unpack y.toModel.unpack).isFinite =
      false := by
    rcases not_finite_cases hy with hyu | ⟨t, hyu⟩ <;> rw [hyu]
    · cases x.toModel.unpack <;> rfl
    · cases x.toModel.unpack with
      | infinity s => cases s <;> cases t <;> rfl
      | _ => rfl
  show (Float.Model.pack _).unpack.isFinite = false
  rwa [unpack_pack_of_not_isFinite hsub]

/-- No number, or the infinity of a sign. -/
def IsBoundless (s : Sign) (u : UnpackedFloat) : Prop := u = .notANumber ∨ u = .infinity s

theorem IsBoundless.isFinite {s : Sign} {u : UnpackedFloat} (h : IsBoundless s u) :
    u.isFinite = false := by
  rcases h with rfl | rfl <;> rfl

theorem isBoundless_sqrt (hx : x.isFinite = false) :
    IsBoundless .positive x.sqrt.toModel.unpack := by
  have hsqrt : IsBoundless .positive (UnpackedFloat.sqrt Format.binary64 x.toModel.unpack) := by
    rcases not_finite_cases hx with hxu | ⟨s, hxu⟩ <;> rw [hxu]
    · exact .inl rfl
    · cases s with
      | positive => exact .inr rfl
      | negative => exact .inl rfl
  show IsBoundless .positive (Float.Model.pack _).unpack
  rwa [unpack_pack_of_not_isFinite hsqrt.isFinite]

theorem isBoundless_sub (x : Float) (hy : IsBoundless .positive y.toModel.unpack) :
    IsBoundless .negative (x - y).toModel.unpack := by
  have hsub : IsBoundless .negative
      (UnpackedFloat.sub Format.binary64 x.toModel.unpack y.toModel.unpack) := by
    rcases hy with hy | hy <;> rw [hy]
    · left
      cases x.toModel.unpack <;> rfl
    · cases x.toModel.unpack with
      | notANumber => exact .inl rfl
      | infinity s => cases s with
        | positive => exact .inl rfl
        | negative => exact .inr rfl
      | zero | finite => exact .inr rfl
  show IsBoundless .negative (Float.Model.pack _).unpack
  rwa [unpack_pack_of_not_isFinite hsub.isFinite]

theorem isBoundless_half (hx : IsBoundless .negative x.toModel.unpack) :
    IsBoundless .negative (x / 2).toModel.unpack := by
  obtain ⟨m, e, hm, htwo, -⟩ :=
    (show IsNormal (2 : Float).toModel.unpack by decide +kernel).exists_eq
  have hdiv : IsBoundless .negative
      (UnpackedFloat.div Format.binary64 x.toModel.unpack (2 : Float).toModel.unpack) := by
    rw [htwo]
    rcases hx with hx | hx <;> rw [hx]
    · exact .inl rfl
    · exact .inr rfl
  rw [unpack_div]
  rwa [unpack_pack_of_not_isFinite hdiv.isFinite]

theorem exists_of_pos (hx : 0 < x) : x.toModel.unpack = .infinity .positive ∨
    ∃ m e hm, x.toModel.unpack = .finite .positive m e hm := by
  rw [lt_iff_compare] at hx
  have hzero : (0 : Float).toModel.unpack = .zero .positive := by rfl
  rw [hzero] at hx
  revert hx
  cases x.toModel.unpack with
  | notANumber | zero => exact fun h => absurd h (by simp [UnpackedFloat.compare])
  | infinity s =>
    cases s with
    | positive => exact fun _ => .inl rfl
    | negative => exact fun h => absurd h (by simp [UnpackedFloat.compare])
  | finite s m e hm =>
    cases s with
    | positive => exact fun _ => .inr ⟨m, e, hm, rfl⟩
    | negative => exact fun h => absurd h (by simp [UnpackedFloat.compare])

theorem not_pos_of_isBoundless (hx : IsBoundless .negative x.toModel.unpack) : ¬ 0 < x := by
  intro h
  rcases exists_of_pos h with hpos | ⟨m, e, hm, hpos⟩ <;> rw [hpos] at hx <;>
    rcases hx with hx | hx <;> cases hx

/-- **A finite double divided by a positive one** keeps its sign. -/
theorem sign?_div_of_pos (hx : x.isFinite = true) (hy : 0 < y) :
    sign? (x / y).toModel.unpack = sign? x.toModel.unpack := by
  have hpositive : ∀ s : Sign, some (s / .positive) = some s := by
    intro s
    cases s <;> rfl
  rw [unpack_div, sign?_unpack_pack]
  rcases exists_of_pos hy with hyu | ⟨m', e', hm', hyu⟩ <;>
    rcases finite_cases hx with ⟨s, hxu⟩ | ⟨s, m, e, hm, hxu⟩ <;> rw [hxu, hyu]
  · exact hpositive s
  · exact hpositive s
  · exact hpositive s
  · exact (sign?_roundWithAccuracy _ _ _ _).trans (hpositive s)

theorem not_isNaN_of_isFinite (hx : x.isFinite = true) : x.isNaN = false := by
  show x.toModel.unpack.isNaN = false
  rcases finite_cases hx with ⟨s, hxu⟩ | ⟨s, m, e, hm, hxu⟩ <;> rw [hxu] <;> rfl

/-- A finite double divided by a positive one is a number. -/
theorem not_isNaN_div (hx : x.isFinite = true) (hy : 0 < y) : (x / y).isNaN = false := by
  rw [isNaN_eq, sign?_div_of_pos hx hy, ← isNaN_eq]
  exact not_isNaN_of_isFinite hx

end NetlistPrep.Double
