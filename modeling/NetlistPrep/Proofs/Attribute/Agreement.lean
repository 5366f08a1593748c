import NetlistPrep.Proofs.Attribute.Scanner
import NetlistPrep.Proofs.Quantity.Grammar
import NetlistPrep.Proofs.Recovery.ReadBack

/-!
# Attributes are quantities

The value of an attribute is taken apart as a quantity where it was taken apart as an attribute, so
every value is a number and none is negative (`value?_agrees`).
-/

namespace NetlistPrep.Attribute

variable {bare : Bool} {a : Attribute} {rest : Text}

/-- A numeral does not go on with letters, even if they begin with the mark of an exponent. -/
theorem ends_of_forall_isLetter {unit : Text} (h : ∀ c ∈ unit, Text.isLetter c = true) :
    Numeral.Ends Text.isDigit unit := by
  have hdigit : ∀ c ∈ unit.head?, Text.isDigit c = false := by
    intro c hc
    exact Text.not_isDigit_of_isLetter (h c (List.mem_of_mem_head? hc))
  refine ⟨hdigit, ?_, ?_⟩
  · intro hpoint
    have hletter := h '.' (List.mem_of_mem_head? hpoint)
    revert hletter
    decide
  · rw [Numeral.scanExponent_fst_eq_none_iff Numeral.reads_isDigit]
    -- Every exponent has a digit, and that is no letter.
    rintro e he ⟨r, rfl⟩
    obtain ⟨d, hd⟩ := List.exists_mem_of_ne_nil e.digits he.ne_nil
    have hletter := h d (by simp [Exponent.text, hd])
    have hno := Text.not_isDigit_of_isLetter hletter
    rw [he.digits d hd] at hno
    exact Bool.noConfusion hno

theorem IsFraction.eq_nil {point : Bool} {fraction : Text} (h : IsFraction point fraction rest) :
    point = false → fraction = [] := by
  cases h with
  | point => exact fun hpoint => Bool.noConfusion hpoint
  | nothing => exact fun _ => rfl

theorem IsFraction.digits {point : Bool} {fraction : Text} (h : IsFraction point fraction rest) :
    ∀ c ∈ fraction, Text.isAsciiDigit c = true := by
  cases h with
  | point hrow => exact hrow.all
  | nothing => exact List.forall_mem_nil _

theorem IsTail.isWritten {exponent : Option Exponent} {letters : Text}
    (h : IsTail bare exponent letters rest) : ∀ e ∈ exponent, e.IsWritten := by
  cases h with
  | exponent he =>
    intro e' he'
    obtain rfl := Option.some.inj he'
    exact ⟨he.mark, he.sign, he.ne_nil, he.digits⟩
  | letters => simp

namespace IsValue

theorem isWritten (h : IsValue bare a rest) : a.numeral.IsWritten where
  sign := by simp [h.sign]
  ne_nil := h.ne_nil
  whole := h.whole.all
  point := h.fraction.eq_nil
  fraction := h.fraction.digits
  exponent := h.tail.isWritten

theorem scan?_text (h : IsValue bare a rest) :
    Quantity.scan? a.text = some (a.numeral, a.unit) := by
  have hletters := h.tail.letters_row.all
  have hends := ends_of_forall_isLetter hletters
  have hunit : (a.unit.takeWhile fun c => !Text.isBlank c) = a.unit := by
    refine List.takeWhile_eq_self_iff.2 fun c hc => ?_
    rw [Text.not_isBlank_of_isLetter (hletters c hc)]
    rfl
  rw [text, Quantity.scan?, Quantity.dropBlanks_text_append h.isWritten,
    Numeral.scan?_text_append Numeral.reads_isDigit h.isWritten hends, Option.map_some, hunit]

end IsValue

theorem IsFirst.exists_isValue {key t : Text} {glued : Bool} (h : IsFirst key glued t a) :
    ∃ rest, IsValue (key == "fingers".toList) a rest := by
  obtain ⟨p, hp, -⟩ := h
  obtain ⟨rest, -, hvalue⟩ := hp.value
  exact ⟨rest, hvalue⟩

/-- **An attribute and a quantity are taken apart at the same place,** so the value of an attribute
is a number, and not a negative one. -/
theorem value?_agrees (key line : Text) :
    (∀ v, extract? key line = some v → ∃ a, IsFirst key false line a ∧ v = a.numeral.text ++ a.unit ∧
      (Quantity.pattern.match? v).map (·.groups) = some [a.numeral.text, a.unit] ∧
      Quantity.scan? v = some (a.numeral, a.unit)) ∧
    value? key line = (extract? key line).map Quantity.read ∧
    (value? key line = none ↔ extract? key line = none) ∧
    (∀ x, value? key line = some x → x.isNaN = false ∧ ¬ x < 0) := by
  have hread : value? key line = (extract? key line).map Quantity.read := by
    rw [value?, extract?_eq, Option.map_map]
    cases ha : find? key line with
    | none => rfl
    | some a =>
      obtain ⟨rest, hvalue⟩ := (isFirst_of_findFrom? ha).exists_isValue
      have hnumber : (Quantity.read a.text).isNaN = false := by
        rw [Quantity.read, hvalue.scan?_text]
        exact Quantity.not_isNaN_scale a.numeral a.unit
      rw [Option.map_some, Option.filter_some, hnumber]
      rfl
  refine ⟨?_, hread, ?_, ?_⟩
  · intro v hv
    rw [extract?_eq] at hv
    obtain ⟨a, ha, rfl⟩ := Option.map_eq_some_iff.1 hv
    have hfirst := isFirst_of_findFrom? ha
    obtain ⟨rest, hvalue⟩ := hfirst.exists_isValue
    refine ⟨a, hfirst, rfl, ?_, hvalue.scan?_text⟩
    rw [Quantity.groups_pattern, hvalue.scan?_text]
    rfl
  · rw [hread, Option.map_eq_none_iff]
  · intro x hx
    have hsign := sign?_of_value? hx
    exact ⟨Double.not_isNaN_of_sign? hsign, Double.not_lt_zero_of_sign? hsign⟩

/-- A value too large for a double, which is read as infinite and stays a number in its unit. -/
theorem value?_agrees_infinite :
    extract? "l".toList "l=2e999y".toList = some "2e999y".toList ∧
    (∃ a, IsFirst "l".toList false "l=2e999y".toList a ∧
      "2e999y".toList = a.numeral.text ++ a.unit ∧
      (Quantity.pattern.match? "2e999y".toList).map (·.groups) = some [a.numeral.text, a.unit] ∧
      Quantity.scan? "2e999y".toList = some (a.numeral, a.unit)) ∧
    ∃ x, value? "l".toList "l=2e999y".toList = some x ∧ x.isNaN = false ∧ ¬ x < 0 := by
  have htext : extract? "l".toList "l=2e999y".toList = some "2e999y".toList := by decide +kernel
  obtain ⟨hparts, hread, -, hnumber⟩ := value?_agrees "l".toList "l=2e999y".toList
  rw [htext] at hread
  exact ⟨htext, hparts _ htext, _, hread, hnumber _ hread⟩

end NetlistPrep.Attribute
