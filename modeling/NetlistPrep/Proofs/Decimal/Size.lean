import Mathlib
import NetlistPrep.Decimal.Style
import NetlistPrep.Proofs.Decimal.Numeral

/-!
# The numbers that digits write

Digits and numerals write rational numbers (`Digits.size`, `Numeral.size`). Zeros that are left out
at the end of digits change nothing (`Digits.size_ofUnits`).
-/

namespace NetlistPrep

theorem isAsciiDigit_of_mem_toDigits {n : Nat} {c : Char} (h : c ∈ Nat.toDigits 10 n) :
    Text.isAsciiDigit c = true := by
  have hdigit := Nat.isDigit_of_mem_toDigits (by decide) (by decide) h
  simpa [Text.isAsciiDigit, Char.isDigit, Char.le_def] using hdigit

theorem isAsciiDigit_of_mem_zeros {n : Nat} {c : Char} (h : c ∈ List.replicate n '0') :
    Text.isAsciiDigit c = true := by
  rw [List.eq_of_mem_replicate h]
  decide

/-- The length of the digits is the power of ten that a number stays below. -/
theorem pow_le_of_length_toDigits {n : ℕ} (hn : 0 < n) :
    10 ^ ((Nat.toDigits 10 n).length - 1) ≤ n ∧ n < 10 ^ (Nat.toDigits 10 n).length := by
  have hpos : 0 < (Nat.toDigits 10 n).length := Nat.length_toDigits_pos
  refine ⟨?_, (Nat.length_toDigits_le_iff (by decide) hpos).1 le_rfl⟩
  by_cases hone : (Nat.toDigits 10 n).length = 1
  · rw [hone]
    exact hn
  · refine Nat.le_of_not_lt fun hlt => ?_
    have := (Nat.length_toDigits_le_iff (b := 10) (by decide) (by omega)).2 hlt
    omega

/-! ## Rows of digits -/

namespace Text

variable {a b : Text}

theorem digitsValue_eq (h : ∀ c ∈ a, isAsciiDigit c = true) :
    digitsValue a = Nat.ofDigitChars 10 a 0 := by
  rw [digitsValue, Nat.ofDigitChars_eq_foldl]
  refine List.foldl_ext _ _ _ fun n c hc => ?_
  rw [Numeral.digit?_of_isAsciiDigit (h c hc)]
  rfl

theorem digitsValue_append (ha : ∀ c ∈ a, isAsciiDigit c = true)
    (hb : ∀ c ∈ b, isAsciiDigit c = true) :
    digitsValue (a ++ b) = 10 ^ b.length * digitsValue a + digitsValue b := by
  have hab : ∀ c ∈ a ++ b, isAsciiDigit c = true := List.forall_mem_append.2 ⟨ha, hb⟩
  rw [digitsValue_eq hab, digitsValue_eq ha, digitsValue_eq hb, Nat.ofDigitChars_append,
    Nat.ofDigitChars_eq_ofDigitChars_zero]

theorem digitsValue_zeros (k : ℕ) : digitsValue (List.replicate k '0') = 0 := by
  rw [digitsValue_eq fun c hc => isAsciiDigit_of_mem_zeros hc, Nat.ofDigitChars_replicate_zero,
    Nat.mul_zero]

theorem digitsValue_append_zeros (ha : ∀ c ∈ a, isAsciiDigit c = true) (k : ℕ) :
    digitsValue (a ++ List.replicate k '0') = 10 ^ k * digitsValue a := by
  rw [digitsValue_append ha fun c hc => isAsciiDigit_of_mem_zeros hc, digitsValue_zeros,
    List.length_replicate, Nat.add_zero]

theorem digitsValue_zeros_append (ha : ∀ c ∈ a, isAsciiDigit c = true) (k : ℕ) :
    digitsValue (List.replicate k '0' ++ a) = digitsValue a := by
  rw [digitsValue_append (fun c hc => isAsciiDigit_of_mem_zeros hc) ha, digitsValue_zeros,
    Nat.mul_zero, Nat.zero_add]

theorem digitsValue_toDigits (n : ℕ) : digitsValue (Nat.toDigits 10 n) = n := by
  rw [digitsValue_eq fun c hc => isAsciiDigit_of_mem_toDigits hc, Nat.ofDigitChars_ten_toDigits]

/-- What is dropped at the end of a text is a row of what may be dropped. -/
theorem exists_dropEnd_append_zeros (t : Text) :
    ∃ k, t = dropEnd (· == '0') t ++ List.replicate k '0' := by
  refine ⟨(t.reverse.takeWhile (· == '0')).length, ?_⟩
  have hzeros : t.reverse.takeWhile (· == '0') =
      List.replicate (t.reverse.takeWhile (· == '0')).length '0' :=
    List.eq_replicate_of_mem fun c hc => by simpa using List.mem_takeWhile_imp hc
  rw [dropEnd, ← List.reverse_replicate, ← hzeros, ← List.reverse_append,
    List.takeWhile_append_dropWhile, List.reverse_reverse]

end Text

/-! ## Numbers -/

/-- The number that a numeral writes, its sign apart. -/
def Numeral.size (n : Numeral) : ℚ := n.mantissa * 10 ^ n.scale

/-- The number that digits write. -/
def Digits.size (d : Digits) : ℚ :=
  Text.digitsValue d.digits * 10 ^ (d.exponent + 1 - d.digits.length)

/-- A numeral writes the number of some digits if it has these digits and perhaps zeros behind them,
which its scale makes up for. -/
theorem Numeral.size_eq_of_mantissa {n : Numeral} {d : Digits} (k : ℕ)
    (hvalue : n.mantissa = 10 ^ k * Text.digitsValue d.digits)
    (hscale : n.scale + k = d.exponent + 1 - d.digits.length) : n.size = d.size := by
  rw [Numeral.size, Digits.size, hvalue, ← hscale, zpow_add₀ (by decide), zpow_natCast]
  push_cast
  ring

namespace Digits

/-- **Digits of a number of units write that number,** without the zeros at the end. -/
theorem size_ofUnits (n : ℕ) (unit : ℤ) : (ofUnits n unit).size = n * 10 ^ unit := by
  obtain ⟨k, hk⟩ := Text.exists_dropEnd_append_zeros (Nat.toDigits 10 n)
  unfold ofUnits size
  simp only
  generalize Text.dropEnd (· == '0') (Nat.toDigits 10 n) = kept at *
  have hkept : ∀ c ∈ kept, Text.isAsciiDigit c = true := fun c hc =>
    isAsciiDigit_of_mem_toDigits (hk ▸ List.mem_append_left _ hc)
  have hvalue : n = 10 ^ k * Text.digitsValue kept := by
    rw [← Text.digitsValue_append_zeros hkept, ← hk, Text.digitsValue_toDigits]
  split
  · rename_i hnil
    subst hnil
    have hzero : n = 0 := by simpa [Text.digitsValue] using hvalue
    have : Text.digitsValue ['0'] = 0 := Text.digitsValue_zeros 1
    simp [this, hzero]
  · have hlength : (Nat.toDigits 10 n).length = kept.length + k := by
      conv_lhs => rw [hk]
      simp
    have hexponent : unit + (Nat.toDigits 10 n).length - 1 + 1 - kept.length = unit + k := by
      rw [hlength]
      push_cast
      ring
    rw [hexponent, zpow_add₀ (by decide), zpow_natCast]
    conv_rhs => rw [hvalue]
    push_cast
    ring

/-- Ten units are one unit of the next power of ten. -/
theorem ofUnits_mul_ten {n : ℕ} (hn : 0 < n) (unit : ℤ) :
    ofUnits (n * 10) unit = ofUnits n (unit + 1) := by
  have hdigits : Nat.toDigits 10 (n * 10) = Nat.toDigits 10 n ++ ['0'] := by
    have happend := Nat.toDigits_append_toDigits (b := 10) (n := n) (d := 0) (by decide) hn
      (by decide)
    rw [Nat.toDigits_zero, Nat.add_zero, Nat.mul_comm] at happend
    exact happend.symm
  have hdropped : Text.dropEnd (· == '0') (Nat.toDigits 10 n ++ ['0']) =
      Text.dropEnd (· == '0') (Nat.toDigits 10 n) := by
    simp [Text.dropEnd]
  unfold ofUnits
  simp only [hdigits, hdropped, List.length_append, List.length_singleton]
  congr 1
  push_cast
  ring

end Digits

end NetlistPrep
