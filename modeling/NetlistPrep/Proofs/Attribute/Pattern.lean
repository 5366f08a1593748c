import NetlistPrep.Proofs.Attribute
import NetlistPrep.Proofs.Decimal.Pattern
import NetlistPrep.Proofs.Text.Classes

/-!
# Attributes found by their pattern

The pattern of attributes finds what the scanner of attributes finds (`extract?_eq`). The parts of a
value could be taken in many ways, but what follows the digits begins with no digit and no point
unless it may be left out, so nothing that was taken is of use when it is given back.

* `first?_tailPattern` is what follows the digits: the exponent counts before the letters.
* `map_text_first?_valuePattern` is a value, `head?_groups_first?_pattern` an attribute at one place
  of a line and `head?_groups_searchFrom?` the first one.
-/

namespace NetlistPrep.Attribute

open Pattern

variable {bare : Bool}

/-! ## What follows the digits -/

/-- Whether what follows the digits of a value is there, after an exponent was looked for. -/
def hasTail (bare : Bool) (t : Text) : Bool :=
  let e := Numeral.scanExponent Text.isAsciiDigit t
  bare || e.1.isSome || !(e.2.takeWhile Text.isLetter).isEmpty

/-- The exponent and the letters that follow the digits of a value. -/
def tailWay (t : Text) : Way :=
  let e := Numeral.exponentWay Text.isAsciiDigit t
  e.append (longest Text.isLetter e.rest)

theorem first?_tailPattern (bare : Bool) (last : Option Char) (t : Text) :
    (tailPattern bare).first? last t = if hasTail bare t then some (tailWay t) else none := by
  have hletters : ∀ last t, ((many Text.isLetter).first? last t).isSome = true := by
    intro last t
    rw [first?_many]
    rfl
  have htext := Numeral.text_scanExponent Text.isAsciiDigit t
  cases bare with
  | true =>
    rw [tailPattern, if_pos rfl, first?_seq_of_total hletters,
      Numeral.first?_optional_exponentPattern Numeral.reads_isAsciiDigit, Option.bind_some, behind,
      first?_many]
    rfl
  | false =>
    rw [tailPattern, if_neg Bool.false_ne_true, first?_alt, first?_seq_of_total hletters,
      Numeral.first?_exponentPattern Numeral.reads_isAsciiDigit, hasTail, tailWay,
      Numeral.exponentWay]
    cases hscan : (Numeral.scanExponent Text.isAsciiDigit t).1 with
    | some e =>
      simp only [Option.map_some, Option.bind_some, behind, first?_many, Option.some_or]
      rfl
    | none =>
      rw [hscan] at htext
      have hrest : (Numeral.scanExponent Text.isAsciiDigit t).2 = t := htext
      rw [hrest, Option.map_none, Option.bind_none, Option.none_or, first?_many1]
      simp only [Bool.false_or, Option.isSome_none]
      cases t.takeWhile Text.isLetter <;> simp [Way.append]

theorem first?_tailPattern_eq_none_iff {last : Option Char} {t : Text} :
    (tailPattern bare).first? last t = none ↔ hasTail bare t = false := by
  rw [first?_tailPattern]
  cases hasTail bare t <;> simp

theorem bare_eq_false_of_hasTail {t : Text} (h : hasTail bare t = false) : bare = false := by
  cases bare with
  | false => rfl
  | true => exact h

/-- What follows the digits begins with no digit and no point. -/
theorem hasTail_cons (bare : Bool) {c : Char} (hc : Text.isAsciiDigit c = true ∨ c = '.')
    (r : Text) : hasTail bare (c :: r) = bare := by
  have hletter : Text.isLetter c = false := by
    rcases hc with hdigit | rfl
    · rw [← Bool.not_eq_true]
      intro h
      have htrue := Numeral.reads_isDigit.ascii c hdigit
      rw [Text.not_isDigit_of_isLetter h] at htrue
      exact Bool.false_ne_true htrue
    · decide
  have hmark : (c == 'e' || c == 'E') = false := by
    rw [← Bool.not_eq_true, Bool.or_eq_true, beq_iff_eq, beq_iff_eq]
    rintro (rfl | rfl)
    · revert hletter
      decide
    · revert hletter
      decide
  simp [hasTail, Numeral.scanExponent, hmark, hletter]

/-! ## Values -/

/-- Digits and what follows them: none of the digits is given back. -/
theorem first?_digits_tail (bare : Bool) (last : Option Char) (t : Text) :
    (seq (many Text.isAsciiDigit) (tailPattern bare)).first? last t =
      (tailPattern bare).behind last (longest Text.isAsciiDigit t) := by
  refine first?_seq_many (fun last last' s hnone => ?_) last t
  rw [first?_tailPattern_eq_none_iff] at hnone ⊢
  cases s with
  | nil => exact hnone
  | cons c r =>
    cases hc : Text.isAsciiDigit c with
    | false => rwa [List.dropWhile_cons_of_neg (by simp [hc])] at hnone
    | true => rw [hasTail_cons bare (.inl hc), bare_eq_false_of_hasTail hnone]

theorem first?_digits_tail_eq_none_iff {last : Option Char} {t : Text} :
    (seq (many Text.isAsciiDigit) (tailPattern bare)).first? last t = none ↔
      hasTail bare (t.dropWhile Text.isAsciiDigit) = false := by
  rw [first?_digits_tail, behind, Option.map_eq_none_iff, first?_tailPattern_eq_none_iff]
  rfl

/-- The point, the digits behind it and what follows them, where no digit stands before the point:
the point is not given back either. -/
theorem first?_fractionPattern (bare : Bool) (last : Option Char) {t : Text}
    (ht : ∀ c ∈ t.head?, Text.isAsciiDigit c = false) :
    (fractionPattern bare).first? last t =
      (tailPattern bare).behind last (Numeral.fractionWay Text.isAsciiDigit t) := by
  rw [fractionPattern, first?_seq_optional]
  by_cases hpoint : t.head? = some '.'
  · obtain ⟨r, rfl⟩ := List.head?_eq_some_iff.1 hpoint
    rw [Numeral.first?_seq_pointPattern_cons, Numeral.fractionWay_cons, behind_cons,
      first?_digits_tail]
    cases hfirst : (tailPattern bare).behind (some '.') (longest Text.isAsciiDigit r) with
    | some m => rfl
    | none =>
      -- Without the point there would have to be a tail that begins with it.
      have hbare : bare = false := by
        rw [behind, Option.map_eq_none_iff, first?_tailPattern_eq_none_iff] at hfirst
        exact bare_eq_false_of_hasTail hfirst
      rw [Option.map_none, Option.none_or, first?_digits_tail_eq_none_iff,
        Numeral.dropWhile_eq_self ht, hasTail_cons bare (.inr rfl), hbare]
  · rw [Numeral.first?_seq_pointPattern_of_ne _ _ hpoint, Option.none_or, first?_digits_tail,
      Numeral.fractionWay_of_ne _ hpoint, longest, Numeral.takeWhile_eq_nil ht,
      Numeral.dropWhile_eq_self ht]
    rfl

/-- The digits of a value, with a point and the digits behind it. -/
def digitsWay (t : Text) : Way :=
  (longest Text.isAsciiDigit t).append
    (Numeral.fractionWay Text.isAsciiDigit (t.dropWhile Text.isAsciiDigit))

/-- A value: each of its parts is as long as it can be. -/
theorem first?_valuePattern (bare : Bool) (last : Option Char) (c : Char) (r : Text) :
    (valuePattern bare).first? last (c :: r) =
      if Text.isAsciiDigit c then (tailPattern bare).behind last (digitsWay (c :: r))
      else none := by
  have hbehind : ∀ last last' s,
      (fractionPattern bare).first? last' (s.dropWhile Text.isAsciiDigit) = none →
      (fractionPattern bare).first? last s = none := by
    intro last last' s hnone
    rw [fractionPattern, first?_seq_optional, Option.or_eq_none_iff,
      first?_digits_tail_eq_none_iff] at hnone ⊢
    constructor
    · by_cases hpoint : s.head? = some '.'
      · obtain ⟨r, rfl⟩ := List.head?_eq_some_iff.1 hpoint
        exact hnone.1
      · exact Numeral.first?_seq_pointPattern_of_ne _ _ hpoint
    · rw [Numeral.dropWhile_eq_self (Numeral.head?_dropWhile _ s)] at hnone
      exact hnone.2
  rw [valuePattern, first?_seq_many1_cons, first?_seq_many hbehind]
  split
  · rename_i hc
    rw [← behind_cons, ← longest_cons_of_pos hc, digitsWay, behind_append, behind]
    congr 1
    exact first?_fractionPattern bare _ (Numeral.head?_dropWhile _ (c :: r))
  · rfl

/-- What stands behind all digits of a value. -/
def afterDigits (t : Text) : Text :=
  (Numeral.scanFraction Text.isAsciiDigit (t.dropWhile Text.isAsciiDigit)).2.2

/-- The parts of a value, the digits first. -/
def parts (t : Text) : Attribute :=
  let f := Numeral.scanFraction Text.isAsciiDigit (t.dropWhile Text.isAsciiDigit)
  let e := Numeral.scanExponent Text.isAsciiDigit (afterDigits t)
  ⟨⟨none, t.takeWhile Text.isAsciiDigit, f.1, f.2.1, e.1⟩, e.2.takeWhile Text.isLetter⟩

/-- What the scanner reads where a digit begins. -/
theorem scan?_cons (bare : Bool) {c : Char} (hc : Text.isAsciiDigit c = true) (r : Text) :
    scan? bare (c :: r) =
      if hasTail bare (afterDigits (c :: r)) then some (parts (c :: r)) else none := by
  have hsign := Numeral.scanSign_cons_digit Numeral.reads_isAsciiDigit hc r
  have hsome : ∀ f, ¬ ((c :: r).takeWhile Text.isAsciiDigit = [] ∧ f) := by
    intro f h
    simp [List.takeWhile_cons_of_pos hc] at h
  simp only [scan?, if_pos hc, Numeral.scan?, hsign, if_neg (hsome _)]
  rfl

/-- **The pattern of values takes the value that is read.** -/
theorem map_text_first?_valuePattern (bare : Bool) (last : Option Char) (t : Text) :
    ((valuePattern bare).first? last t).map (·.text) = (scan? bare t).map text := by
  cases t with
  | nil => rfl
  | cons c r =>
    rw [first?_valuePattern]
    cases hc : Text.isAsciiDigit c with
    | false => simp [scan?, hc]
    | true =>
      have hrest : (digitsWay (c :: r)).rest = afterDigits (c :: r) := rfl
      rw [scan?_cons bare hc, if_pos rfl, behind, first?_tailPattern, hrest]
      cases htail : hasTail bare (afterDigits (c :: r)) with
      | true =>
        simp [text, Numeral.text, digitsWay, tailWay, parts, afterDigits, Numeral.fractionWay,
          Numeral.exponentWay, longest, Way.append]
      | false => rfl

/-! ## Attributes -/

/-- An attribute at one place of a line. -/
theorem head?_groups_first?_pattern (key : Text) (last : Option Char) (t : Text) :
    ((pattern key).first? last t).map (·.groups.head?) =
      (if last.any Text.isNameChar then none else scanKey? key t).map fun a => some a.text := by
  rw [pattern, first?_seq_notBehind]
  split
  · rfl
  · rw [first?_seq_word, scanKey?]
    split
    · have hlength : (key ++ ['=']).length = key.length + 1 := List.length_append
      have hvalue := fun last => congrArg (Option.map some)
        (map_text_first?_valuePattern (countKeys.contains key) last (t.drop (key.length + 1)))
      simp only [Option.map_map] at hvalue
      rw [behind, first?_group, Option.map_map, Option.map_map, hlength]
      exact hvalue _
    · rfl

/-- The first attribute of a line, which goes on behind the character `last`. -/
theorem head?_groups_searchFrom? (key : Text) (last : Option Char) (t : Text) :
    ((pattern key).searchFrom? last t).map (·.groups.head?) =
      (findFrom? key (last.any Text.isNameChar) t).map fun a => some a.text := by
  induction t generalizing last with
  | nil =>
    have hnone : scanKey? key [] = none := by simp [scanKey?]
    rw [searchFrom?, head?_groups_first?_pattern, hnone, ite_self]
    rfl
  | cons c r ih =>
    have hlast : (some c).any Text.isNameChar = Text.isNameChar c := rfl
    rw [searchFrom?, findFrom?, Option.map_or, head?_groups_first?_pattern, ih, hlast]
    cases (if last.any Text.isNameChar then none else scanKey? key (c :: r)) with
    | some a => rfl
    | none => rfl

/-- **The pattern finds the attribute that is found.** -/
theorem extract?_eq (key line : Text) : extract? key line = (find? key line).map text := by
  have hfirst := head?_groups_searchFrom? key none line
  have hglued : (none : Option Char).any Text.isNameChar = false := rfl
  rw [hglued] at hfirst
  calc extract? key line
      = (((pattern key).searchFrom? none line).map (·.groups.head?)).join := by
        rw [extract?, search?]
        cases (pattern key).searchFrom? none line <;> rfl
    _ = ((findFrom? key false line).map fun a => some a.text).join := by rw [hfirst]
    _ = (find? key line).map text := by
        rw [find?]
        cases findFrom? key false line <;> rfl

end NetlistPrep.Attribute
