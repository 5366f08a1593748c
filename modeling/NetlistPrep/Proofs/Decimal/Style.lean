import NetlistPrep.Proofs.Decimal.Size
import NetlistPrep.Proofs.Double.Quotient

/-!
# Written decimals are numerals

What a style writes is a well-formed numeral of the number that the digits write
(`Style.exists_numeral_write`), so it is read back whole. A finite double in general notation has a
minus sign if and only if the double has one, and a small one has an exponent
(`Decimal.exists_numeral_general`). What is not finite is written by its name
(`Decimal.general_of_not_isFinite`).
-/

namespace NetlistPrep

/-! ## Digits -/

theorem roundHalfEven_le {num den bound : Nat} (h : num < bound * den) :
    roundHalfEven num den ≤ bound := by
  have hquotient : num / den < bound := by
    refine (Nat.div_lt_iff_lt_mul ?_).2 h
    exact Nat.pos_of_ne_zero fun hzero => by simp [hzero] at h
  unfold roundHalfEven
  simp only
  split
  · omega
  · split <;> omega

namespace Digits

/-- Digits that can be written: there is one, and all are ASCII digits. -/
structure IsWritten (d : Digits) : Prop where
  ne_nil : d.digits ≠ []
  digits : ∀ c ∈ d.digits, Text.isAsciiDigit c = true

theorem isWritten_zero : IsWritten ⟨['0'], 0⟩ := ⟨by decide, List.all_eq_true.1 (by decide)⟩

theorem isWritten_ofUnits (n : Nat) (unit : Int) : (ofUnits n unit).IsWritten := by
  constructor
  · simp only [ofUnits]
    split
    · simp
    · assumption
  · intro c hc
    simp only [ofUnits] at hc
    split at hc
    · rw [List.mem_singleton.1 hc]
      decide
    · rw [Text.dropEnd, List.mem_reverse] at hc
      exact isAsciiDigit_of_mem_toDigits
        (List.mem_reverse.1 ((List.dropWhile_sublist _).subset hc))

theorem isWritten_round (count num den : Nat) : (round count num den).IsWritten :=
  isWritten_ofUnits _ _

theorem exponent_ofUnits_le {n k : Nat} (unit : Int) (h : n ≤ 10 ^ k) :
    (ofUnits n unit).exponent ≤ unit + k := by
  have hlength : (Nat.toDigits 10 n).length ≤ k + 1 := by
    refine (Nat.length_toDigits_le_iff (by decide) (Nat.succ_pos k)).2 ?_
    rw [Nat.pow_succ]
    have := Nat.pow_pos (n := k) (show 0 < 10 by decide)
    omega
  simp only [ofUnits]
  omega

/-- **The power of ten of a small quotient.** Rounding may raise it by one. -/
theorem exponent_round_le {count num den k : Nat} (hcount : 0 < count) (hnum : 0 < num)
    (h : num * 10 ^ k < den) : (round count num den).exponent ≤ -k := by
  have hone : 1 ≤ 10 ^ k := Nat.pow_pos (by decide)
  have hless : num < den := Nat.lt_of_le_of_lt (Nat.le_mul_of_pos_right num hone) h
  generalize hq : (den - 1) / num = q
  have hqle : q * num ≤ den - 1 := hq ▸ Nat.div_mul_le_self _ _
  have hlow : 10 ^ k ≤ q := by
    rw [← hq, Nat.le_div_iff_mul_le hnum, Nat.mul_comm]
    omega
  obtain ⟨hql, hqhigh⟩ := pow_le_of_length_toDigits (Nat.lt_of_lt_of_le hone hlow)
  generalize hl : (Nat.toDigits 10 q).length = l at *
  have hkl : k < l := (Nat.pow_lt_pow_iff_right (by decide)).1 (Nat.lt_of_le_of_lt hlow hqhigh)
  have hleading : leading num den = -(l : Int) := by
    rw [leading, if_neg (by omega), hq, hl]
  have hscaled : inUnits num den (leading num den - count + 1) =
      (num * 10 ^ (l + count - 1), den) := by
    rw [hleading, inUnits, if_neg (by omega)]
    congr 3
    omega
  have hbound : num * 10 ^ (l + count - 1) < 10 ^ count * den := by
    calc num * 10 ^ (l + count - 1) = 10 ^ count * (10 ^ (l - 1) * num) := by
          rw [show l + count - 1 = count + (l - 1) by omega, Nat.pow_add]
          ac_rfl
      _ ≤ 10 ^ count * (q * num) := Nat.mul_le_mul_left _ (Nat.mul_le_mul_right _ hql)
      _ < 10 ^ count * den := Nat.mul_lt_mul_of_pos_left (by omega) (Nat.pow_pos (by decide))
  have hexponent := exponent_ofUnits_le (leading num den - count + 1) (roundHalfEven_le hbound)
  simp only [round, hscaled]
  rw [hleading] at hexponent
  rw [hleading]
  omega

end Digits

/-! ## Numerals -/

namespace Style

/-- The exponent that is written. -/
def exponent (e : Int) : Exponent :=
  ⟨'e', some (if e < 0 then '-' else '+'),
    if e.natAbs < 10 then '0' :: Nat.toDigits 10 e.natAbs else Nat.toDigits 10 e.natAbs⟩

theorem text_exponent (e : Int) : (exponent e).text = exponentPart e := rfl

theorem isWritten_exponent (e : Int) : (exponent e).IsWritten where
  mark := by simp [exponent]
  sign := by
    simp only [exponent, Option.mem_some_iff, forall_eq']
    split <;> decide
  ne_nil := by
    simp only [exponent]
    split
    · exact List.cons_ne_nil _ _
    · exact Nat.toDigits_ne_nil
  digits := by
    intro c hc
    simp only [exponent] at hc
    split at hc
    · rcases List.mem_cons.1 hc with rfl | hc
      · decide
      · exact isAsciiDigit_of_mem_toDigits hc
    · exact isAsciiDigit_of_mem_toDigits hc

theorem value_exponent (e : Int) : (exponent e).value = e := by
  have hdigits : Text.digitsValue (exponent e).digits = e.natAbs := by
    simp only [exponent]
    split
    · have hzeros := Text.digitsValue_zeros_append (a := Nat.toDigits 10 e.natAbs)
        (fun c hc => isAsciiDigit_of_mem_toDigits hc) 1
      exact hzeros.trans (Text.digitsValue_toDigits _)
    · exact Text.digitsValue_toDigits _
  rw [Exponent.value, hdigits]
  by_cases he : e < 0
  · rw [if_pos (by simp [exponent, he])]
    omega
  · rw [if_neg (by simp [exponent, he])]
    omega

variable {d : Digits}

/-- A number below one is a zero, the point, more zeros and the digits. -/
theorem exists_numeral_below_one (hd : d.IsWritten) (h : d.exponent < 0) :
    ∃ n : Numeral, n.IsWritten ∧
      n.text = '0' :: '.' :: List.replicate (d.exponent.natAbs - 1) '0' ++ d.digits ∧
      n.sign = none ∧ n.exponent = none ∧ n.size = d.size := by
  have hfraction : ∀ c ∈ List.replicate (d.exponent.natAbs - 1) '0' ++ d.digits,
      Text.isAsciiDigit c = true :=
    List.forall_mem_append.2 ⟨fun c hc => isAsciiDigit_of_mem_zeros hc, hd.digits⟩
  refine ⟨⟨none, ['0'], true, List.replicate (d.exponent.natAbs - 1) '0' ++ d.digits, none⟩,
    ⟨by simp, by simp, by simp [Text.isAsciiDigit], by simp, hfraction, by simp⟩,
    by simp [Numeral.text], rfl, rfl, ?_⟩
  have hvalue := (Text.digitsValue_zeros_append hfraction 1).trans
    (Text.digitsValue_zeros_append hd.digits (d.exponent.natAbs - 1))
  refine Numeral.size_eq_of_mantissa 0 (hvalue.trans (Nat.one_mul _).symm) ?_
  simp only [Numeral.scale, Option.map_none, Option.getD_none, List.length_append,
    List.length_replicate]
  omega

/-- The digits before the point, filled up with zeros. -/
def wholePart (d : Digits) (count : Nat) : Text :=
  d.digits.take count ++ List.replicate (count - d.digits.length) '0'

theorem wholePart_ne_nil (hd : d.IsWritten) {count : Nat} (h : 0 < count) :
    wholePart d count ≠ [] := by
  have := List.length_pos_iff.2 hd.ne_nil
  rw [wholePart, ← List.length_pos_iff]
  simp
  omega

theorem isAsciiDigit_of_mem_wholePart (hd : d.IsWritten) {count : Nat} :
    ∀ c ∈ wholePart d count, Text.isAsciiDigit c = true :=
  List.forall_mem_append.2 ⟨fun c hc => hd.digits c (List.mem_of_mem_take hc),
    fun _ hc => isAsciiDigit_of_mem_zeros hc⟩

/-- A whole number, with a zero behind the point or without a point. -/
theorem exists_numeral_whole (hd : d.IsWritten) {count : Nat} (hcount : d.exponent + 1 = count)
    (hpos : 0 < count) (hlength : d.digits.length ≤ count) (marked : Bool) :
    ∃ n : Numeral, n.IsWritten ∧
      n.text = wholePart d count ++ (if marked then ['.', '0'] else []) ∧
      n.sign = none ∧ n.exponent = none ∧ n.size = d.size := by
  have hdigits : ∀ c ∈ wholePart d count, Text.isAsciiDigit c = true :=
    isAsciiDigit_of_mem_wholePart hd
  have hvalue : Text.digitsValue (wholePart d count) =
      10 ^ (count - d.digits.length) * Text.digitsValue d.digits := by
    rw [wholePart, List.take_of_length_le hlength, Text.digitsValue_append_zeros hd.digits]
  cases marked with
  | true =>
    refine ⟨⟨none, wholePart d count, true, ['0'], none⟩,
      ⟨by simp, wholePart_ne_nil hd hpos, hdigits, by simp, by simp [Text.isAsciiDigit], by simp⟩,
      by simp [Numeral.text], rfl, rfl, ?_⟩
    refine Numeral.size_eq_of_mantissa (1 + (count - d.digits.length)) ?_ ?_
    · rw [Nat.pow_add, Nat.mul_assoc, ← hvalue]
      exact Text.digitsValue_append_zeros hdigits 1
    · simp only [Numeral.scale, Option.map_none, Option.getD_none, List.length_singleton]
      omega
  | false =>
    refine ⟨⟨none, wholePart d count, false, [], none⟩,
      ⟨by simp, wholePart_ne_nil hd hpos, hdigits, by simp, by simp, by simp⟩,
      by simp [Numeral.text], rfl, rfl, ?_⟩
    refine Numeral.size_eq_of_mantissa (count - d.digits.length) ?_ ?_
    · rw [← hvalue, Numeral.mantissa, List.append_nil]
    · simp only [Numeral.scale, Option.map_none, Option.getD_none, List.length_nil]
      omega

/-- A number with digits on both sides of the point. -/
theorem exists_numeral_fraction (hd : d.IsWritten) {count : Nat} (hcount : d.exponent + 1 = count)
    (hpos : 0 < count) (hlength : count < d.digits.length) :
    ∃ n : Numeral, n.IsWritten ∧ n.text = wholePart d count ++ '.' :: d.digits.drop count ∧
      n.sign = none ∧ n.exponent = none ∧ n.size = d.size := by
  refine ⟨⟨none, wholePart d count, true, d.digits.drop count, none⟩,
    ⟨by simp, wholePart_ne_nil hd hpos, isAsciiDigit_of_mem_wholePart hd, by simp,
      fun c hc => hd.digits c (List.mem_of_mem_drop hc), by simp⟩,
    by simp [Numeral.text], rfl, rfl, ?_⟩
  refine Numeral.size_eq_of_mantissa 0 ?_ ?_
  · rw [Numeral.mantissa, wholePart, Nat.sub_eq_zero_of_le hlength.le, List.replicate_zero,
      List.append_nil, List.take_append_drop, Nat.pow_zero, Nat.one_mul]
  · simp only [Numeral.scale, Option.map_none, Option.getD_none, List.length_drop]
    omega

theorem exists_numeral_positional (s : Style) (hd : d.IsWritten) :
    ∃ n : Numeral, n.IsWritten ∧ n.text = s.positional d ∧ n.sign = none ∧ n.exponent = none ∧
      n.size = d.size := by
  unfold positional
  split
  · rename_i hneg
    exact exists_numeral_below_one hd hneg
  · rename_i hnonneg
    have hcount : d.exponent + 1 = (d.exponent.toNat + 1 : Nat) := by omega
    have hpos := Nat.succ_pos d.exponent.toNat
    simp only
    split
    · rename_i hdrop
      have hwhole := exists_numeral_whole hd hcount hpos (List.drop_eq_nil_iff.1 hdrop) s.marksWhole
      cases hmarked : s.marksWhole <;> simpa [hmarked, wholePart] using hwhole
    · rename_i hdrop
      exact exists_numeral_fraction hd hcount hpos
        (Nat.lt_of_not_le fun h => hdrop (List.drop_eq_nil_iff.2 h))

theorem exists_numeral_scientific (hd : d.IsWritten) :
    ∃ n : Numeral, n.IsWritten ∧ n.text = scientific d ∧ n.sign = none ∧
      n.exponent = some (exponent d.exponent) ∧ n.size = d.size := by
  obtain ⟨first, fraction, hdigits⟩ := List.exists_cons_of_ne_nil hd.ne_nil
  have hmem := hd.digits
  rw [hdigits] at hmem
  have hexponent : ∀ e ∈ some (exponent d.exponent), e.IsWritten := by
    simpa using isWritten_exponent d.exponent
  refine ⟨⟨none, [first], !fraction.isEmpty, fraction, some (exponent d.exponent)⟩, ?_, ?_, rfl,
    rfl, ?_⟩
  · refine ⟨by simp, by simp, ?_, by simp, ?_, hexponent⟩
    · simpa using hmem first List.mem_cons_self
    · exact fun c hc => hmem c (List.mem_cons_of_mem _ hc)
  · unfold scientific
    rw [hdigits]
    cases fraction <;> simp [Numeral.text, text_exponent]
  · refine Numeral.size_eq_of_mantissa 0 ?_ ?_
    · rw [hdigits, Nat.pow_zero, Nat.one_mul]
      rfl
    · simp only [Numeral.scale, Option.map_some, Option.getD_some, value_exponent, hdigits,
        List.length_cons]
      omega

/-- **What a style writes is a numeral,** with an exponent where the notation is not positional. It
writes the number that the digits write. -/
theorem exists_numeral_write (s : Style) (hd : d.IsWritten) :
    ∃ n : Numeral, n.IsWritten ∧ n.text = s.write d ∧ n.sign = none ∧
      n.exponent.isSome = (!(-4 ≤ d.exponent && d.exponent < s.positionalBelow)) ∧
      n.size = d.size := by
  unfold write
  split
  · rename_i h
    obtain ⟨n, hn, htext, hsign, hexponent, hsize⟩ := exists_numeral_positional s hd
    exact ⟨n, hn, htext, hsign, by simp [hexponent, h], hsize⟩
  · rename_i h
    obtain ⟨n, hn, htext, hsign, hexponent, hsize⟩ := exists_numeral_scientific hd
    exact ⟨n, hn, htext, hsign, by simp only [hexponent, eq_false_of_ne_true h]; rfl, hsize⟩

end Style

/-! ## Doubles -/

/-- The numeral with a minus sign in front, or with none. -/
def Numeral.signed (n : Numeral) (negative : Bool) : Numeral :=
  { n with sign := if negative then some '-' else none }

theorem Numeral.IsWritten.signed {n : Numeral} (h : n.IsWritten) (negative : Bool) :
    (n.signed negative).IsWritten :=
  ⟨by cases negative <;> simp [Numeral.signed], h.ne_nil, h.whole, h.point, h.fraction, h.exponent⟩

theorem Numeral.text_signed {n : Numeral} (h : n.sign = none) (negative : Bool) :
    (n.signed negative).text = if negative then '-' :: n.text else n.text := by
  cases negative <;> simp [Numeral.signed, Numeral.text, h]

namespace Decimal

open Float.Model UnpackedFloat

/-- **A finite double in general notation is a numeral.** It has the sign of the double, and an
exponent where the double is small. -/
theorem exists_numeral_general {x : Float} (hx : x.isFinite = true) :
    ∃ n : Numeral, n.IsWritten ∧ n.text = general x ∧
      n.sign = (if Double.sign? x.toModel.unpack == some .negative then some '-' else none) ∧
      (Double.topExponent x.toModel.unpack ≤ -17 → (∀ s, x.toModel.unpack ≠ .zero s) →
        n.exponent.isSome = true) := by
  have hfinite : x.toModel.unpack.isFinite = true := hx
  simp only [general, Style.writeFloat, Double.ofFloat_eq]
  cases hu : x.toModel.unpack with
  | notANumber | infinity => simp [hu, UnpackedFloat.isFinite] at hfinite
  | zero s =>
    obtain ⟨n, hn, htext, hsign, -⟩ :=
      Style.exists_numeral_write Style.general Digits.isWritten_zero
    refine ⟨n.signed (s == .negative), hn.signed _, ?_, ?_, fun _ h => absurd rfl (h s)⟩
    · rw [Numeral.text_signed hsign, htext]
      rfl
    · cases s <;> rfl
  | finite s m e hm =>
    have hd := Digits.isWritten_round 6 (Digits.quotient m e).1 (Digits.quotient m e).2
    obtain ⟨n, hn, htext, hsign, hexponent, -⟩ := Style.exists_numeral_write Style.general hd
    refine ⟨n.signed (s == .negative), hn.signed _, ?_, ?_, fun htop _ => ?_⟩
    · rw [Numeral.text_signed hsign, htext]
      simp only [Double.ofUnpacked]
      rw [if_neg (show ¬ m = 0 by omega)]
    · cases s <;> rfl
    · have hlog : m < 2 ^ (m.log2 + 1) := Nat.lt_log2_self
      simp only [Double.topExponent, totalExponent] at htop
      have hquotient : Digits.quotient m e = (m, 2 ^ (-e).toNat) := if_neg (by omega)
      have hsmall : m * 10 ^ 5 < 2 ^ (-e).toNat := by
        calc m * 10 ^ 5 < 2 ^ (m.log2 + 1) * 2 ^ 17 := Nat.mul_lt_mul'' hlog (by decide)
          _ = 2 ^ (m.log2 + 1 + 17) := (Nat.pow_add ..).symm
          _ ≤ 2 ^ (-e).toNat := Nat.pow_le_pow_right (by decide) (by omega)
      have hle := Digits.exponent_round_le (show 0 < 6 by decide) hm hsmall
      show n.exponent.isSome = true
      simp only [hquotient] at hexponent
      rw [hexponent, decide_eq_false (by omega)]
      rfl

/-- What is not finite is written by its name. -/
theorem general_of_not_isFinite {x : Float} (hx : x.isFinite = false) :
    general x ∈ ["nan", "inf", "-inf"].map String.toList := by
  have hinfinite : x.toModel.unpack.isFinite = false := hx
  simp only [general, Style.writeFloat, Double.ofFloat_eq]
  cases hu : x.toModel.unpack with
  | notANumber => decide
  | infinity s => cases s <;> decide
  | zero | finite => simp [hu, UnpackedFloat.isFinite] at hinfinite

theorem exists_general_eq_cons {x : Float} (hx : x.isFinite = false) :
    ∃ c r, general x = c :: r ∧ c ∈ ['-', 'i', 'n'] := by
  have hnames := general_of_not_isFinite hx
  simp only [List.map_cons, List.map_nil, List.mem_cons, List.not_mem_nil, or_false] at hnames
  rcases hnames with hname | hname | hname
  · exact ⟨'n', ['a', 'n'], hname, by decide⟩
  · exact ⟨'i', ['n', 'f'], hname, by decide⟩
  · exact ⟨'-', ['i', 'n', 'f'], hname, by decide⟩

end Decimal

end NetlistPrep
