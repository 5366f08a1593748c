import Mathlib
import NetlistPrep.Decimal.Digits

/-!
# Doubles in unpacked form

A double is its three fields sign, exponent and fraction; its unpacked form is the number that they
write. Arithmetic is done on unpacked forms and packed again.

* `unpack_packComponents` is what three fields unpack to. The facts about packing are read off it.
* `Canonical` forms are those that a double has (`canonical_unpack`), and packing loses nothing of
  them (`unpack_pack`).
* Packing keeps the sign of every form (`sign?_unpack_pack`), and keeps it finite where the exponent
  is not too large (`isFinite_unpack_pack`).
* `ofFloat_eq` tells a double taken apart from its unpacked form.
-/

namespace NetlistPrep.Double

open Float.Model UnpackedFloat

/-- The sign of a double in unpacked form; what is no number has none. -/
def sign? : UnpackedFloat → Option Sign
  | .notANumber => none
  | .infinity s | .zero s | .finite s .. => some s

/-- The unpacked forms of doubles. A finite one has all its digits or the least exponent. -/
inductive Canonical : UnpackedFloat → Prop
  | notANumber : Canonical .notANumber
  | infinity (s : Sign) : Canonical (.infinity s)
  | zero (s : Sign) : Canonical (.zero s)
  | subnormal (s : Sign) {m : Nat} (hm : 0 < m) (hhigh : m < 2 ^ 52) :
      Canonical (.finite s m (-1074) hm)
  | normal (s : Sign) {m : Nat} {e : Int} (hm : 0 < m) (hlow : 2 ^ 52 ≤ m) (hhigh : m < 2 ^ 53)
      (helow : -1074 ≤ e) (hehigh : e ≤ 971) : Canonical (.finite s m e hm)

/-! ## Fields -/

theorem toNat_one_append (m : BitVec 52) : (1#1 ++ m).toNat = 2 ^ 52 + m.toNat := by
  rw [BitVec.toNat_append, ← Nat.shiftLeft_add_eq_or_of_lt m.isLt]
  simp

variable (s : Sign) (e : BitVec 11) (m : BitVec 52)

/-- **What three fields unpack to.** -/
theorem unpack_packComponents :
    UnpackedFloat.unpack Format.binary64 (packComponents Format.binary64 s e m) =
      if e = -1#11 then if m = 0#52 then .infinity s else .notANumber
      else if e = 0#11 then
        if h : m = 0#52 then .zero s
        else .finite s m.toNat (-1074) (Nat.pos_of_ne_zero fun h' => h (BitVec.eq_of_toNat_eq h'))
      else .finite s (2 ^ 52 + m.toNat) (e.toNat - 1075) (by omega) := by
  unfold UnpackedFloat.unpack
  simp only [unpackMantissa_packComponents, unpackExponent_packComponents,
    unpackSign_packComponents, Sign.ofBitVec_toBitVec, toNat_one_append]
  split
  · rfl
  · split
    · rename_i he
      subst he
      rfl
    · rfl

theorem canonical_unpack_packComponents :
    Canonical (UnpackedFloat.unpack Format.binary64 (packComponents Format.binary64 s e m)) := by
  have hm : m.toNat < 2 ^ 52 := m.isLt
  have he : e.toNat < 2048 := e.isLt
  rw [unpack_packComponents]
  split
  · split
    · exact .infinity s
    · exact .notANumber
  · rename_i hfinite
    split
    · split
      · exact .zero s
      · exact .subnormal s _ hm
    · rename_i hnormal
      have hpos : e.toNat ≠ 0 := fun h => hnormal (BitVec.eq_of_toNat_eq h)
      have hlt : e.toNat ≠ 2047 := fun h => hfinite (BitVec.eq_of_toNat_eq h)
      exact .normal s _ (by omega) (by omega) (by omega) (by omega)

theorem canonical_unpack (x : Float.Model) : Canonical x.unpack := by
  unfold Float.Model.unpack
  rw [← @packComponents_unpackSign_unpackExponent_unpackMantissa Format.binary64 x.toBits.toBitVec]
  exact canonical_unpack_packComponents _ _ _

/-! ## Packing -/

theorem unpack_pack_eq (u : UnpackedFloat) : (Float.Model.pack u).unpack =
    UnpackedFloat.unpack Format.binary64 (UnpackedFloat.pack Format.binary64 u) := rfl

/-- The exponent field of a finite form. -/
def exponentField (m : Nat) (e : Int) : BitVec 11 :=
  if m.log2 = 52 then BitVec.ofNat 11 (e + 1075).toNat else 0#11

theorem exponentField_ne {m : Nat} {e : Int} (he : e ≤ 971) : exponentField m e ≠ -1#11 := by
  unfold exponentField
  split
  · intro h
    have hval := congrArg BitVec.toNat h
    rw [BitVec.toNat_ofNat, Nat.mod_eq_of_lt (by omega)] at hval
    have hones : (-1#11 : BitVec 11).toNat = 2047 := by decide
    omega
  · decide

theorem pack_finite {m : Nat} (e : Int) (hm : 0 < m) :
    UnpackedFloat.pack Format.binary64 (.finite s m e hm) =
      if 971 < e then packComponents Format.binary64 s (-1#11) 0#52
      else packComponents Format.binary64 s (exponentField m e) (BitVec.ofNat 52 m) := by
  have hbias : e + Format.binary64.exponentBias + Format.binary64.mantissaBitsWithoutImplicit =
      e + 1075 := by
    simp only [Format.exponentBias]
    omega
  have hbits : Format.binary64.mantissaBits = 53 := rfl
  unfold UnpackedFloat.pack
  simp only [hbias, hbits]
  by_cases he : 971 < e
  · rw [if_pos (by omega), if_pos he]
    rfl
  · rw [if_neg (by omega), if_neg he]
    by_cases hlog : m.log2 = 52
    · rw [if_pos (by omega), exponentField, if_pos hlog]
    · rw [if_neg (by omega), exponentField, if_neg hlog]

/-- **Packing loses nothing of a canonical form.** -/
theorem unpack_pack {u : UnpackedFloat} (h : Canonical u) : (Float.Model.pack u).unpack = u := by
  rw [unpack_pack_eq]
  cases h with
  | notANumber => rfl
  | infinity s => cases s <;> rfl
  | zero s => cases s <;> rfl
  | @subnormal s m hm hhigh =>
    have hlog : m.log2 < 52 := (Nat.log2_lt (by omega)).2 hhigh
    have hfield : (BitVec.ofNat 52 m).toNat = m := Nat.mod_eq_of_lt hhigh
    have hne : BitVec.ofNat 52 m ≠ 0#52 := fun h => by
      rw [h] at hfield
      exact Nat.ne_of_lt hm hfield
    have hzero : exponentField m (-1074) = 0#11 := if_neg (by omega)
    rw [pack_finite, if_neg (by omega), unpack_packComponents, if_neg (exponentField_ne (by omega)),
      if_pos hzero, dif_neg hne]
    congr 1
  | @normal s m e hm hlow hhigh helow hehigh =>
    have hlog : m.log2 = 52 := (Nat.log2_eq_iff (by omega)).2 ⟨hlow, hhigh⟩
    have hexponent : (exponentField m e).toNat = (e + 1075).toNat := by
      rw [exponentField, if_pos hlog]
      exact Nat.mod_eq_of_lt (by omega)
    have hne : exponentField m e ≠ 0#11 := fun h => by
      rw [h] at hexponent
      have hzero : (0#11).toNat = 0 := rfl
      omega
    have hfield : (BitVec.ofNat 52 m).toNat = m % 2 ^ 52 := rfl
    rw [pack_finite, if_neg (by omega), unpack_packComponents, if_neg (exponentField_ne hehigh),
      if_neg hne]
    congr 1
    · omega
    · omega

/-- **Packing keeps the sign,** also of a form that is rounded on the way or becomes infinite. -/
theorem sign?_unpack_pack (u : UnpackedFloat) : sign? (Float.Model.pack u).unpack = sign? u := by
  rw [unpack_pack_eq]
  cases u with
  | notANumber => rfl
  | infinity s => cases s <;> rfl
  | zero s => cases s <;> rfl
  | finite s m e hm =>
    rw [pack_finite]
    split
    · cases s <;> rfl
    · rw [unpack_packComponents, if_neg (exponentField_ne (by omega))]
      split
      · split <;> rfl
      · rfl

theorem isFinite_unpack_pack {m : Nat} {e : Int} (hm : 0 < m) (he : e ≤ 971) :
    (Float.Model.pack (.finite s m e hm)).unpack.isFinite = true := by
  rw [unpack_pack_eq, pack_finite, if_neg (by omega), unpack_packComponents,
    if_neg (exponentField_ne he)]
  split
  · split <;> rfl
  · rfl

/-! ## A double taken apart -/

/-- An unpacked form taken apart. -/
def ofUnpacked : UnpackedFloat → Double
  | .notANumber => .nan
  | .infinity s => .infinite (s == .negative)
  | .zero s => .finite (s == .negative) 0 (-1074)
  | .finite s m e _ => .finite (s == .negative) m e

theorem ofBitVec_beq_negative (v : BitVec 1) :
    (Sign.ofBitVec v == .negative) = decide (v.toNat = 1) := by
  revert v
  decide

/-- **A double is taken apart as it is unpacked.** -/
theorem ofFloat_eq (x : Float) : Double.ofFloat x = ofUnpacked x.toModel.unpack := by
  have hbits : x.toBits.toNat < 2 ^ 64 := x.toBits.toBitVec.isLt
  have hsign : (@unpackSign Format.binary64 x.toBits.toBitVec).toNat =
      x.toBits.toNat / Nat.pow 2 63 := by
    simp [unpackSign, Nat.shiftRight_eq_div_pow]
    omega
  have hexponent : (@unpackExponent Format.binary64 x.toBits.toBitVec).toNat =
      x.toBits.toNat / Nat.pow 2 52 % Nat.pow 2 11 := by
    simp [unpackExponent, Nat.shiftRight_eq_div_pow]
  have hmantissa : (@unpackMantissa Format.binary64 x.toBits.toBitVec).toNat =
      x.toBits.toNat % Nat.pow 2 52 := by
    simp [unpackMantissa]
  have hunpack : x.toModel.unpack =
      UnpackedFloat.unpack Format.binary64 (packComponents Format.binary64
        (Sign.ofBitVec (@unpackSign Format.binary64 x.toBits.toBitVec))
        (@unpackExponent Format.binary64 x.toBits.toBitVec)
        (@unpackMantissa Format.binary64 x.toBits.toBitVec)) := by
    rw [packComponents_unpackSign_unpackExponent_unpackMantissa]
    rfl
  rw [hunpack, unpack_packComponents]
  unfold Double.ofFloat
  simp only [← hsign, ← hexponent, ← hmantissa]
  generalize @unpackSign Format.binary64 x.toBits.toBitVec = v
  generalize @unpackExponent Format.binary64 x.toBits.toBitVec = e
  generalize @unpackMantissa Format.binary64 x.toBits.toBitVec = m
  have hzero : m = 0#52 ↔ m.toNat = 0 := BitVec.toNat_inj.symm
  have hones : e = -1#11 ↔ e.toNat = 2047 := BitVec.toNat_inj.symm
  have hleast : e = 0#11 ↔ e.toNat = 0 := BitVec.toNat_inj.symm
  simp only [hzero, hones, hleast]
  split
  · split
    · rw [ofUnpacked, ofBitVec_beq_negative]
    · rfl
  · split
    · split
      · rename_i h
        rw [ofUnpacked, ofBitVec_beq_negative, h]
      · rw [ofUnpacked, ofBitVec_beq_negative]
    · exact congrArg (Double.finite · (2 ^ 52 + m.toNat) (e.toNat - 1075))
        (ofBitVec_beq_negative v).symm

end NetlistPrep.Double
