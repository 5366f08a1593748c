import NetlistPrep.Decimal.Numeral
import NetlistPrep.Text.Letter

/-!
# Numerals that are read as they are written

`Numeral.IsFormed` is the grammar of numerals over a class of digits. A reader finds a numeral
again, whatever follows it, as long as that does not go on with the numeral
(`IsFormed.scan?_text_append`). `Numeral.IsWritten` are the numerals of ASCII digits with a digit
before the point, which belong to the grammar over every such class.
-/

namespace NetlistPrep

namespace Exponent

/-- The grammar of exponents: a mark, at most a sign, and at least one digit. -/
structure IsFormed (digit : Char → Bool) (e : Exponent) : Prop where
  mark : e.mark ∈ ['e', 'E']
  sign : ∀ c ∈ e.sign, c ∈ ['+', '-']
  ne_nil : e.digits ≠ []
  digits : ∀ c ∈ e.digits, digit c = true

/-- A well-formed exponent: a mark, at most a sign, and at least one ASCII digit. -/
structure IsWritten (e : Exponent) : Prop where
  mark : e.mark ∈ ['e', 'E']
  sign : ∀ c ∈ e.sign, c ∈ ['+', '-']
  ne_nil : e.digits ≠ []
  digits : ∀ c ∈ e.digits, Text.isAsciiDigit c = true

end Exponent

namespace Numeral

/-- The grammar of numerals: at most a sign, digits that may have a point behind them or among them
or have it before them, and at most an exponent. -/
structure IsFormed (digit : Char → Bool) (n : Numeral) : Prop where
  sign : ∀ c ∈ n.sign, c ∈ ['+', '-']
  whole : ∀ c ∈ n.whole, digit c = true
  point : n.point = false → n.fraction = []
  fraction : ∀ c ∈ n.fraction, digit c = true
  some_digit : n.whole ≠ [] ∨ n.fraction ≠ []
  exponent : ∀ e ∈ n.exponent, e.IsFormed digit

/-- A well-formed numeral: ASCII digits, at least one of them before the point. -/
structure IsWritten (n : Numeral) : Prop where
  sign : ∀ c ∈ n.sign, c ∈ ['+', '-']
  ne_nil : n.whole ≠ []
  whole : ∀ c ∈ n.whole, Text.isAsciiDigit c = true
  point : n.point = false → n.fraction = []
  fraction : ∀ c ∈ n.fraction, Text.isAsciiDigit c = true
  exponent : ∀ e ∈ n.exponent, e.IsWritten

/-- A class of digits that has the ASCII digits in it and nothing else of what a numeral is made
of. -/
structure Reads (digit : Char → Bool) : Prop where
  ascii : ∀ c, Text.isAsciiDigit c = true → digit c = true
  others : ∀ c ∈ ['+', '-', '.', 'e', 'E'], digit c = false

theorem IsWritten.isFormed {digit : Char → Bool} {n : Numeral} (hd : Reads digit)
    (h : n.IsWritten) : n.IsFormed digit where
  sign := h.sign
  whole c hc := hd.ascii c (h.whole c hc)
  point := h.point
  fraction c hc := hd.ascii c (h.fraction c hc)
  some_digit := .inl h.ne_nil
  exponent e he :=
    ⟨(h.exponent e he).mark, (h.exponent e he).sign, (h.exponent e he).ne_nil,
      fun c hc => hd.ascii c ((h.exponent e he).digits c hc)⟩

/-- A text that no numeral goes on with. -/
structure Ends (digit : Char → Bool) (rest : Text) : Prop where
  head : ∀ c ∈ rest.head?, digit c = false
  point : rest.head? ≠ some '.'
  exponent : (scanExponent digit rest).1 = none

instance (digit : Char → Bool) (rest : Text) : Decidable (Ends digit rest) :=
  decidable_of_iff (rest.head?.any digit = false ∧ rest.head? ≠ some '.' ∧
      (scanExponent digit rest).1 = none)
    ⟨fun h => ⟨(Option.any_eq_false ..).1 h.1, h.2.1, h.2.2⟩,
      fun h => ⟨(Option.any_eq_false ..).2 h.head, h.point, h.exponent⟩⟩

theorem toNat_of_isAsciiDigit {c : Char} (h : Text.isAsciiDigit c = true) :
    0x30 ≤ c.toNat ∧ c.toNat < 0x30 + 10 := by
  simp [Text.isAsciiDigit, Char.le_def, UInt32.le_iff_toNat_le] at h
  have : c.val.toNat = c.toNat := rfl
  omega

theorem digit?_of_isAsciiDigit {c : Char} (h : Text.isAsciiDigit c = true) :
    Text.digit? c = some (c.toNat - 0x30) := by
  have hrange := toNat_of_isAsciiDigit h
  simp [Text.digit?, Text.zeros, hrange]

/-- A numeral begins with its sign, or with a digit where it has none. -/
theorem IsWritten.exists_text_eq_cons {n : Numeral} (h : n.IsWritten) :
    ∃ c r, n.text = c :: r ∧ (n.sign = some c ∨ n.sign = none ∧ Text.isAsciiDigit c = true) := by
  obtain ⟨d, whole, hwhole⟩ := List.exists_cons_of_ne_nil h.ne_nil
  have hd : Text.isAsciiDigit d = true := h.whole d (hwhole ▸ List.mem_cons_self)
  unfold text
  cases hsign : n.sign with
  | some c => exact ⟨c, _, rfl, .inl rfl⟩
  | none =>
    rw [hwhole]
    exact ⟨d, _, rfl, .inr ⟨rfl, hd⟩⟩

theorem reads_isDigit : Reads Text.isDigit where
  ascii _ h := by rw [Text.isDigit, digit?_of_isAsciiDigit h]; rfl
  others c hc := eq_false_of_ne_true (List.any_eq_false.1 (by decide) c hc)

theorem reads_isAsciiDigit : Reads Text.isAsciiDigit where
  ascii _ h := h
  others c hc := eq_false_of_ne_true (List.any_eq_false.1 (by decide) c hc)

theorem ends_nil (digit : Char → Bool) : Ends digit [] := by
  refine ⟨?_, ?_, rfl⟩ <;> simp

variable {digit : Char → Bool} {rest : Text}

theorem Ends.scanExponent_eq (h : Ends digit rest) : scanExponent digit rest = (none, rest) := by
  have htext := text_scanExponent digit rest
  rw [h.exponent] at htext
  exact Prod.ext h.exponent htext

/-! ## Reading the parts -/

theorem takeWhile_digits {ds : Text} (hds : ∀ c ∈ ds, digit c = true)
    (hrest : ∀ c ∈ rest.head?, digit c = false) : (ds ++ rest).takeWhile digit = ds := by
  rw [List.takeWhile_append_of_pos hds]
  cases rest with
  | nil => simp
  | cons c r =>
    rw [List.takeWhile_cons_of_neg (by simp [hrest c rfl]), List.append_nil]

theorem dropWhile_digits {ds : Text} (hds : ∀ c ∈ ds, digit c = true)
    (hrest : ∀ c ∈ rest.head?, digit c = false) : (ds ++ rest).dropWhile digit = rest := by
  rw [List.dropWhile_append_of_pos hds]
  cases rest with
  | nil => rfl
  | cons c r => rw [List.dropWhile_cons_of_neg (by simp [hrest c rfl])]

theorem takeWhile_eq_nil (hrest : ∀ c ∈ rest.head?, digit c = false) :
    rest.takeWhile digit = [] := by
  show ([] ++ rest).takeWhile digit = []
  exact takeWhile_digits (List.forall_mem_nil _) hrest

theorem dropWhile_eq_self (hrest : ∀ c ∈ rest.head?, digit c = false) :
    rest.dropWhile digit = rest := by
  show ([] ++ rest).dropWhile digit = rest
  exact dropWhile_digits (List.forall_mem_nil _) hrest

/-- What stands behind a row of digits begins with none. -/
theorem head?_dropWhile (digit : Char → Bool) (t : Text) :
    ∀ c ∈ (t.dropWhile digit).head?, digit c = false := by
  intro c hc
  have hnot := List.head?_dropWhile_not digit t
  rwa [Option.mem_def.1 hc] at hnot

theorem scanSign_append {sign : Option Char} (hsign : ∀ c ∈ sign, c ∈ ['+', '-'])
    (hrest : ∀ c ∈ rest.head?, c ∉ ['+', '-']) :
    scanSign (sign.toList ++ rest) = (sign, rest) := by
  cases sign with
  | some c =>
    have hc := hsign c rfl
    simp only [List.mem_cons, List.not_mem_nil, or_false] at hc
    simp [scanSign, hc]
  | none =>
    cases rest with
    | nil => rfl
    | cons c r =>
      have hc := hrest c rfl
      simp only [List.mem_cons, List.not_mem_nil, or_false] at hc
      simp [scanSign, hc]

/-- A row of digits has no sign in front. -/
theorem head?_not_sign (hd : Reads digit) {ds : Text} (hne : ds ≠ [])
    (hds : ∀ c ∈ ds, digit c = true) : ∀ c ∈ (ds ++ rest).head?, c ∉ ['+', '-'] := by
  obtain ⟨d, r, rfl⟩ := List.exists_cons_of_ne_nil hne
  intro c hc hsign
  obtain rfl : d = c := by simpa using hc
  have htrue := hds d List.mem_cons_self
  rw [hd.others d (List.mem_append_left ['.', 'e', 'E'] hsign)] at htrue
  simp at htrue

theorem scanFraction_of_ne (digit : Char → Bool) (hno : rest.head? ≠ some '.') :
    scanFraction digit rest = (false, [], rest) := by
  unfold scanFraction
  split
  · simp at hno
  · rfl

theorem scanFraction_append {point : Bool} {fraction : Text}
    (hpoint : point = false → fraction = []) (hfraction : ∀ c ∈ fraction, digit c = true)
    (hrest : ∀ c ∈ rest.head?, digit c = false) (hno : rest.head? ≠ some '.') :
    scanFraction digit ((if point then ['.'] else []) ++ (fraction ++ rest)) =
      (point, fraction, rest) := by
  cases point with
  | true =>
    simp only [if_true, List.singleton_append, scanFraction, takeWhile_digits hfraction hrest,
      dropWhile_digits hfraction hrest]
  | false =>
    rw [hpoint rfl]
    simp only [Bool.false_eq_true, if_false, List.nil_append]
    exact scanFraction_of_ne digit hno

theorem scanExponent_text_append (hd : Reads digit) {e : Exponent} (he : e.IsFormed digit)
    (rest : Text) : scanExponent digit (e.text ++ rest) =
      (some { e with digits := e.digits ++ rest.takeWhile digit }, rest.dropWhile digit) := by
  have hmark := he.mark
  simp only [List.mem_cons, List.not_mem_nil, or_false] at hmark
  simp only [Exponent.text, List.cons_append, List.append_assoc, scanExponent,
    scanSign_append he.sign (head?_not_sign hd he.ne_nil he.digits),
    List.takeWhile_append_of_pos he.digits, List.dropWhile_append_of_pos he.digits]
  simp [hmark, he.ne_nil]

theorem scanExponent_append (hd : Reads digit) (hrest : Ends digit rest)
    {exponent : Option Exponent} (h : ∀ e ∈ exponent, e.IsFormed digit) :
    scanExponent digit ((exponent.map Exponent.text).getD [] ++ rest) = (exponent, rest) := by
  cases exponent with
  | none => exact hrest.scanExponent_eq
  | some e =>
    have hscan := scanExponent_text_append hd (h e rfl) rest
    rwa [takeWhile_eq_nil hrest.head, dropWhile_eq_self hrest.head, List.append_nil] at hscan

/-- The mark of an exponent is neither a digit nor a point. -/
theorem head?_text_exponent (hd : Reads digit) {e : Exponent} (he : e.IsFormed digit) :
    (∀ c ∈ (e.text ++ rest).head?, digit c = false) ∧ (e.text ++ rest).head? ≠ some '.' := by
  have hmark := he.mark
  simp only [Exponent.text, List.cons_append, List.head?_cons, Option.mem_some_iff, forall_eq']
  constructor
  · exact hd.others _ (List.mem_append_right ['+', '-', '.'] hmark)
  · intro h
    rw [Option.some.inj h] at hmark
    simp at hmark

/-- What follows the digits of a numeral begins with neither a digit nor a point. -/
theorem head?_exponent_append (hd : Reads digit) (hrest : Ends digit rest)
    {exponent : Option Exponent} (h : ∀ e ∈ exponent, e.IsFormed digit) :
    (∀ c ∈ ((exponent.map Exponent.text).getD [] ++ rest).head?, digit c = false) ∧
      ((exponent.map Exponent.text).getD [] ++ rest).head? ≠ some '.' := by
  cases exponent with
  | none => exact ⟨hrest.head, hrest.point⟩
  | some e => exact head?_text_exponent hd (h e rfl)

/-- The parts of a numeral one after the other, and what follows. -/
theorem text_append (n : Numeral) (rest : Text) :
    n.text ++ rest = n.sign.toList ++ (n.whole ++ ((if n.point then ['.'] else []) ++
      (n.fraction ++ ((n.exponent.map Exponent.text).getD [] ++ rest)))) := by
  simp [text]

namespace IsFormed

variable {n : Numeral}

/-- What stands behind the sign of a numeral begins with no sign. -/
theorem head?_not_sign (hd : Reads digit) (hn : n.IsFormed digit) :
    ∀ c ∈ (n.whole ++ ((if n.point then ['.'] else []) ++ (n.fraction ++ rest))).head?,
      c ∉ ['+', '-'] := by
  by_cases hwhole : n.whole = []
  · have hpoint : n.point = true := by
      rw [← Bool.not_eq_false]
      exact fun h => hn.some_digit.elim (· hwhole) (· (hn.point h))
    simp [hwhole, hpoint]
  · exact Numeral.head?_not_sign hd hwhole hn.whole

theorem scanSign_text_append (hd : Reads digit) (hn : n.IsFormed digit) (rest : Text) :
    scanSign (n.text ++ rest) = (n.sign, n.whole ++ ((if n.point then ['.'] else []) ++
      (n.fraction ++ ((n.exponent.map Exponent.text).getD [] ++ rest)))) := by
  rw [text_append]
  exact scanSign_append hn.sign (head?_not_sign hd hn)

/-- The whole digits of a numeral end at its point; without a point nothing stands between them and
what follows. -/
theorem head?_point_append (hd : Reads digit) (hn : n.IsFormed digit)
    (h : ∀ c ∈ rest.head?, digit c = false) :
    ∀ c ∈ ((if n.point then ['.'] else []) ++ (n.fraction ++ rest)).head?, digit c = false := by
  cases hp : n.point with
  | true => simpa using hd.others '.' (by simp)
  | false =>
    rw [hn.point hp]
    exact h

/-- **A numeral is read as it is written,** whatever follows it. -/
theorem scan?_text_append (hd : Reads digit) (hn : n.IsFormed digit) (hrest : Ends digit rest) :
    scan? digit (n.text ++ rest) = some (n, rest) := by
  obtain ⟨hdigit, hpoint⟩ := head?_exponent_append hd hrest hn.exponent
  have hafter := hn.head?_point_append hd hdigit
  have hsome : ¬ (n.whole = [] ∧ n.fraction = []) := fun h => hn.some_digit.elim (· h.1) (· h.2)
  simp only [scan?, scanSign_text_append hd hn, takeWhile_digits hn.whole hafter,
    dropWhile_digits hn.whole hafter, scanFraction_append hn.point hn.fraction hdigit hpoint,
    scanExponent_append hd hrest hn.exponent]
  rw [if_neg hsome]

end IsFormed

theorem scan?_text_append (hd : Reads digit) {n : Numeral} (hn : n.IsWritten)
    (hrest : Ends digit rest) : scan? digit (n.text ++ rest) = some (n, rest) :=
  (hn.isFormed hd).scan?_text_append hd hrest

/-- No sign begins where a digit does. -/
theorem scanSign_cons_digit (hd : Reads digit) {c : Char} (hc : Text.isAsciiDigit c = true)
    (r : Text) : scanSign (c :: r) = (none, c :: r) := by
  have hdigit : digit c = true := hd.ascii c hc
  have hhead : ∀ d ∈ (c :: r).head?, d ∉ ['+', '-'] :=
    head?_not_sign hd (List.cons_ne_nil c []) (by simpa using hdigit)
  have hnone : ∀ d ∈ (none : Option Char), d ∈ ['+', '-'] := by simp
  exact scanSign_append hnone hhead

/-- What is read where a digit begins has no sign and begins with that digit. -/
theorem sign_of_scan?_digit (hd : Reads digit) {c : Char} {r : Text}
    (hc : Text.isAsciiDigit c = true) {n : Numeral} (h : scan? digit (c :: r) = some (n, rest)) :
    n.sign = none ∧ ∃ t, n.text = c :: t := by
  have hdigit : digit c = true := hd.ascii c hc
  simp only [scan?, scanSign_cons_digit hd hc, List.takeWhile_cons_of_pos hdigit] at h
  split at h
  · simp at h
  · obtain ⟨rfl, -⟩ := Prod.mk.inj (Option.some.inj h)
    exact ⟨rfl, _, rfl⟩

end Numeral

end NetlistPrep
