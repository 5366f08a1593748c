import NetlistPrep.Attribute.Pattern
import NetlistPrep.Proofs.Decimal.Grammar
import NetlistPrep.Proofs.Text.Pattern

/-!
# Numerals read by their pattern

The pattern of numerals takes what the scanner of numerals takes (`first?_pattern`), and so it is
with the pattern of exponents (`first?_exponentPattern`). A sign is the only part that could be
given back, and then the digits that follow are missing (`first?_seq_signPattern`).
-/

namespace NetlistPrep.Numeral

open Pattern

variable {digit : Char → Bool} {b : Pattern}

/-- A sign is taken where there is one, if what stands behind it never begins with a sign. -/
theorem first?_seq_signPattern
    (hb : ∀ last c r, c ∈ ['+', '-'] → b.first? last (c :: r) = none)
    (last : Option Char) (t : Text) :
    (seq signPattern b).first? last t =
      b.behind last ⟨(scanSign t).1.toList, [], (scanSign t).2⟩ := by
  rw [signPattern, first?_seq_optional]
  cases t with
  | nil => exact (behind_nothing b last []).symm
  | cons c r =>
    rw [first?_seq_char_cons, scanSign]
    split
    · rename_i hc
      rw [hb last c r (by simpa using hc), Option.or_none]
      rfl
    · exact (behind_nothing b last (c :: r)).symm

theorem head?_cons_sign (hd : Reads digit) {c : Char} (hc : c ∈ ['+', '-']) (r : Text) :
    ∀ c' ∈ (c :: r).head?, digit c' = false := by
  intro c' hc'
  obtain rfl : c = c' := by simpa using hc'
  exact hd.others c (List.mem_append_left ['.', 'e', 'E'] hc)

theorem first?_exponentPattern (hd : Reads digit) (last : Option Char) (t : Text) :
    (exponentPattern digit).first? last t =
      (scanExponent digit t).1.map fun e => ⟨e.text, [], (scanExponent digit t).2⟩ := by
  have hsign : ∀ last c r, c ∈ ['+', '-'] → (many1 digit).first? last (c :: r) = none := by
    intro last c r hc
    rw [first?_many1, if_pos (takeWhile_eq_nil (head?_cons_sign hd hc r))]
  cases t with
  | nil => rfl
  | cons mark r =>
    rw [exponentPattern, first?_seq_char_cons, first?_seq_signPattern hsign, behind, first?_many1]
    simp only [scanExponent]
    split
    · split
      · rfl
      · simp [Way.append, Way.cons, longest, Exponent.text]
    · rfl

/-- An exponent, or nothing where there is none. -/
def exponentWay (digit : Char → Bool) (t : Text) : Way :=
  ⟨((scanExponent digit t).1.map Exponent.text).getD [], [], (scanExponent digit t).2⟩

theorem first?_optional_exponentPattern (hd : Reads digit) (last : Option Char) (t : Text) :
    (optional (exponentPattern digit)).first? last t = some (exponentWay digit t) := by
  have htext := text_scanExponent digit t
  rw [first?_optional, first?_exponentPattern hd, exponentWay]
  cases hscan : (scanExponent digit t).1 with
  | some e => rfl
  | none =>
    rw [hscan] at htext
    exact congrArg (fun r => some (Way.mk [] [] r)) htext.symm

/-! ## Digits and point -/

theorem first?_seq_pointPattern_cons (b : Pattern) (last : Option Char) (r : Text) :
    (seq pointPattern b).first? last ('.' :: r) = (b.first? (some '.') r).map (.cons '.') :=
  first?_seq_char_cons _ b last '.' r

theorem first?_seq_pointPattern_of_ne (b : Pattern) (last : Option Char) {t : Text}
    (ht : t.head? ≠ some '.') : (seq pointPattern b).first? last t = none := by
  cases t with
  | nil => rfl
  | cons c r =>
    have hc : c ≠ '.' := by simpa using ht
    rw [pointPattern, first?_seq_char_cons]
    simp [hc]

/-- A point and the digits behind it, or nothing where there is no point. -/
def fractionWay (digit : Char → Bool) (t : Text) : Way :=
  ⟨(if (scanFraction digit t).1 then ['.'] else []) ++ (scanFraction digit t).2.1, [],
    (scanFraction digit t).2.2⟩

theorem fractionWay_cons (digit : Char → Bool) (r : Text) :
    fractionWay digit ('.' :: r) = (longest digit r).cons '.' := rfl

theorem fractionWay_of_ne (digit : Char → Bool) {t : Text} (ht : t.head? ≠ some '.') :
    fractionWay digit t = .nothing t := by
  rw [fractionWay, scanFraction_of_ne digit ht]
  rfl

/-- The point and the digits behind it, where no digit stands before them. -/
theorem first?_fraction (last : Option Char) {t : Text}
    (ht : ∀ c ∈ t.head?, digit c = false) :
    (seq (optional pointPattern) (many digit)).first? last t = some (fractionWay digit t) := by
  rw [first?_seq_optional]
  by_cases hpoint : t.head? = some '.'
  · obtain ⟨r, rfl⟩ := List.head?_eq_some_iff.1 hpoint
    rw [first?_seq_pointPattern_cons, first?_many, fractionWay_cons]
    rfl
  · rw [first?_seq_pointPattern_of_ne _ _ hpoint, first?_many, fractionWay_of_ne digit hpoint,
      longest, takeWhile_eq_nil ht, dropWhile_eq_self ht]
    rfl

theorem first?_digitsPattern (hd : Reads digit) (last : Option Char) (t : Text) :
    (digitsPattern digit).first? last t =
      if t.takeWhile digit = [] ∧ (scanFraction digit (t.dropWhile digit)).2.1 = [] then none
      else some ((longest digit t).append (fractionWay digit (t.dropWhile digit))) := by
  have hafter : ∀ c ∈ (t.dropWhile digit).head?, digit c = false := head?_dropWhile digit t
  have hbehind : (seq (optional pointPattern) (many digit)).behind last (longest digit t) =
      some ((longest digit t).append (fractionWay digit (t.dropWhile digit))) := by
    rw [behind, longest, first?_fraction _ hafter]
    rfl
  rw [digitsPattern, first?_alt]
  by_cases hwhole : t.takeWhile digit = []
  · have hnone : (many1 digit).first? last t = none := by rw [first?_many1, if_pos hwhole]
    have hrest : t.dropWhile digit = t := by
      simpa [hwhole] using List.takeWhile_append_dropWhile (p := digit) (l := t)
    rw [first?_seq_of_eq_none hnone, Option.none_or, hrest]
    by_cases hpoint : t.head? = some '.'
    · obtain ⟨r, rfl⟩ := List.head?_eq_some_iff.1 hpoint
      have hempty : longest digit ('.' :: r) = .nothing ('.' :: r) :=
        longest_cons_of_neg (hd.others '.' (by simp))
      rw [first?_seq_pointPattern_cons, first?_many1, fractionWay_cons, hempty]
      simp only [scanFraction, hwhole, true_and]
      split <;> rfl
    · have hfraction : (scanFraction digit t).2.1 = [] := by
        rw [scanFraction_of_ne digit hpoint]
      rw [first?_seq_pointPattern_of_ne _ _ hpoint, if_pos ⟨hwhole, hfraction⟩]
  · have hsome : (many1 digit).first? last t = some (longest digit t) := by
      rw [first?_many1, if_neg hwhole]
    rw [first?_seq_of_isSome hsome (by rw [hbehind]; rfl), hbehind]
    simp [hwhole]

/-- **The pattern of numerals takes the numeral that is read.** -/
theorem first?_pattern (hd : Reads digit) (last : Option Char) (t : Text) :
    (pattern digit).first? last t =
      (scan? digit t).map fun found => ⟨found.1.text, [], found.2⟩ := by
  have htotal : ∀ last t, ((optional (exponentPattern digit)).first? last t).isSome = true := by
    intro last t
    rw [first?_optional_exponentPattern hd]
    rfl
  have hsign : ∀ last c r, c ∈ ['+', '-'] →
      (seq (digitsPattern digit) (optional (exponentPattern digit))).first? last (c :: r) = none := by
    intro last c r hc
    have hhead := head?_cons_sign hd hc r
    have hpoint : (c :: r).head? ≠ some '.' := by
      intro h
      rw [List.head?_cons, Option.some.injEq] at h
      simp [h] at hc
    apply first?_seq_of_eq_none
    rw [first?_digitsPattern hd, takeWhile_eq_nil hhead, dropWhile_eq_self hhead,
      scanFraction_of_ne digit hpoint]
    rfl
  rw [pattern, first?_seq_signPattern hsign, behind, first?_seq_of_total htotal,
    first?_digitsPattern hd]
  simp only [scan?]
  split
  · rfl
  · simp [behind, first?_optional_exponentPattern hd, exponentWay, Way.append, longest,
      fractionWay, text]

end NetlistPrep.Numeral
