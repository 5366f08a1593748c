import NetlistPrep.Proofs.Double.Order
import NetlistPrep.Proofs.Quantity.ReadBack

/-!
# The signs of quantities

The number that a numeral writes has the numeral's sign, and no unit changes it (`sign?_scale_eq`).
So a text that begins with a numeral is read as a number, however large or small it gets
(`isNaN_read_iff`).
-/

namespace NetlistPrep

open Float.Model UnpackedFloat

namespace Double

variable {x : Float}

theorem not_isNaN_of_sign? {s : Sign} (h : sign? x.toModel.unpack = some s) : x.isNaN = false := by
  rw [isNaN_eq, h]
  rfl

theorem not_lt_zero_of_sign? (h : sign? x.toModel.unpack = some .positive) : ¬ x < 0 := by
  rw [lt_zero_iff, h]
  exact fun hneg => Sign.noConfusion (Option.some.inj hneg.1)

theorem sign?_neg (x : Float) :
    sign? (-x).toModel.unpack = (sign? x.toModel.unpack).map fun s => -s := by
  have hneg : (-x).toModel.unpack = (Float.Model.pack x.toModel.unpack.neg).unpack := rfl
  rw [hneg, sign?_unpack_pack]
  cases x.toModel.unpack <;> rfl

end Double

theorem Numeral.sign?_value (n : Numeral) : Double.sign? n.value.toModel.unpack =
    some (if n.sign = some '-' then -.positive else .positive) := by
  have hmagnitude := Double.sign?_ofScientific n.mantissa (n.scale < 0) n.scale.natAbs
  unfold value
  split
  · rw [Double.sign?_neg, hmagnitude]
    rfl
  · exact hmagnitude

namespace Quantity

/-- A unit keeps the sign of a numeral. -/
theorem sign?_scale_eq (n : Numeral) (unit : Text) :
    Double.sign? (scale n unit).toModel.unpack = Double.sign? n.value.toModel.unpack := by
  unfold scale
  cases hm : multiplier? unit with
  | none => rfl
  | some m =>
    obtain ⟨before, after, hsplit, -⟩ := List.lookup_eq_some_iff.1 hm
    have hmem : (unit, m) ∈ units := by simp [hsplit]
    exact Double.sign?_mul_of_isNormal _ (isNormal_of_mem_units hmem).1

theorem sign?_scale {n : Numeral} (h : n.sign ≠ some '-') (unit : Text) :
    Double.sign? (scale n unit).toModel.unpack = some .positive := by
  rw [sign?_scale_eq, Numeral.sign?_value, if_neg h]

theorem not_isNaN_scale (n : Numeral) (unit : Text) : (scale n unit).isNaN = false :=
  Double.not_isNaN_of_sign? ((sign?_scale_eq n unit).trans n.sign?_value)

/-- **Only a text that begins with no numeral is read as no number.** -/
theorem isNaN_read_iff (t : Text) : (read t).isNaN = true ↔ scan? t = none := by
  unfold read
  cases scan? t with
  | none =>
    have hnan : nan.isNaN = true := by decide
    simpa using hnan
  | some found =>
    have hnumber := not_isNaN_scale found.1 found.2
    simpa using hnumber

/-- A quantity that begins with a digit is positive, if it is a number. -/
theorem sign?_read {c : Char} {r : Text} (hc : Text.isAsciiDigit c = true)
    (h : (read (c :: r)).isNaN = false) :
    Double.sign? (read (c :: r)).toModel.unpack = some .positive := by
  have hblanks : Text.dropBlanks (c :: r) = c :: r :=
    List.dropWhile_cons_of_neg (by simp [not_isBlank_of_isAsciiDigit hc])
  have hscan : scan? (c :: r) ≠ none := by
    rw [Ne, ← isNaN_read_iff, h]
    exact Bool.false_ne_true
  obtain ⟨found, hs⟩ := Option.ne_none_iff_exists'.1 hscan
  unfold read
  rw [hs]
  rw [scan?, hblanks] at hs
  obtain ⟨numeral, hnumeral, rfl⟩ := Option.map_eq_some_iff.1 hs
  refine sign?_scale ?_ _
  rw [(Numeral.sign_of_scan?_digit Numeral.reads_isDigit hc hnumeral).1]
  exact (Option.some_ne_none '-').symm

end Quantity

end NetlistPrep
