import NetlistPrep.Proofs.Attribute.Pattern

/-!
# Where attributes are and what they are

`IsValue` says how long each part of a value is, and `HasValueAt` what it is for a key to have a value
at a place of a line. `extract?_leftmost` is the search: the value at the first such place is found,
and none is found only where there is no such place.
-/

namespace NetlistPrep.Attribute

/-! ## The parts of a value -/

/-- A point and all the digits behind it, or nothing where no point stands. -/
inductive IsFraction : Bool → Text → Text → Prop
  | point {digits rest : Text} :
    IsRow Text.isAsciiDigit digits rest → IsFraction true digits rest
  | nothing {rest : Text} : rest.head? ≠ some '.' → IsFraction false [] rest

/-- An exponent with all its digits and all the letters behind it, or all the letters where no
exponent stands; without `bare` there has to be one letter then. -/
inductive IsTail (bare : Bool) : Option Exponent → Text → Text → Prop
  | exponent {e : Exponent} {letters rest : Text} :
    e.IsFormed Text.isAsciiDigit → IsRow Text.isAsciiDigit e.digits (letters ++ rest) →
    IsRow Text.isLetter letters rest → IsTail bare (some e) letters rest
  | letters {letters rest : Text} :
    (∀ e : Exponent, e.IsFormed Text.isAsciiDigit → ¬ e.text <+: letters ++ rest) →
    IsRow Text.isLetter letters rest → (bare = true ∨ letters ≠ []) → IsTail bare none letters rest

/-- What stands behind all digits of a value in front of the text `rest`. -/
def behindFraction (a : Attribute) (rest : Text) : Text :=
  (a.numeral.exponent.map Exponent.text).getD [] ++ (a.unit ++ rest)

/-- What stands behind the digits before the point of a value in front of the text `rest`. -/
def behindWhole (a : Attribute) (rest : Text) : Text :=
  (if a.numeral.point then ['.'] else []) ++ (a.numeral.fraction ++ a.behindFraction rest)

/-- A value in front of the text `rest`, each of its parts as long as it can be. -/
structure IsValue (bare : Bool) (a : Attribute) (rest : Text) : Prop where
  sign : a.numeral.sign = none
  ne_nil : a.numeral.whole ≠ []
  whole : IsRow Text.isAsciiDigit a.numeral.whole (a.behindWhole rest)
  fraction : IsFraction a.numeral.point a.numeral.fraction (a.behindFraction rest)
  tail : IsTail bare a.numeral.exponent a.unit rest

variable {bare : Bool} {rest t : Text}

theorem IsFraction.scanFraction_eq {point : Bool} {fraction : Text}
    (h : IsFraction point fraction rest) : Numeral.scanFraction Text.isAsciiDigit
      ((if point then ['.'] else []) ++ (fraction ++ rest)) = (point, fraction, rest) := by
  cases h with
  | point hrow =>
    simp only [if_true, List.singleton_append, Numeral.scanFraction,
      Numeral.takeWhile_digits hrow.all hrow.ends, Numeral.dropWhile_digits hrow.all hrow.ends]
  | nothing hno => exact Numeral.scanFraction_of_ne _ hno

theorem isFraction_scanFraction (t : Text) :
    IsFraction (Numeral.scanFraction Text.isAsciiDigit t).1
      (Numeral.scanFraction Text.isAsciiDigit t).2.1
      (Numeral.scanFraction Text.isAsciiDigit t).2.2 := by
  by_cases hpoint : t.head? = some '.'
  · obtain ⟨r, rfl⟩ := List.head?_eq_some_iff.1 hpoint
    exact .point (isRow_takeWhile _ r)
  · rw [Numeral.scanFraction_of_ne _ hpoint]
    exact .nothing hpoint

namespace IsTail

variable {exponent : Option Exponent} {letters : Text}

theorem letters_row (h : IsTail bare exponent letters rest) :
    IsRow Text.isLetter letters rest := by
  cases h with
  | exponent _ _ hletters => exact hletters
  | letters _ hletters _ => exact hletters

theorem scanExponent_eq (h : IsTail bare exponent letters rest) :
    Numeral.scanExponent Text.isAsciiDigit
      ((exponent.map Exponent.text).getD [] ++ (letters ++ rest)) = (exponent, letters ++ rest) := by
  cases h with
  | exponent he hdigits _ =>
    have hscan := Numeral.scanExponent_text_append Numeral.reads_isAsciiDigit he (letters ++ rest)
    rwa [Numeral.takeWhile_eq_nil hdigits.ends, Numeral.dropWhile_eq_self hdigits.ends,
      List.append_nil] at hscan
  | letters hnone _ _ =>
    have hfst := (Numeral.scanExponent_fst_eq_none_iff Numeral.reads_isAsciiDigit).2 hnone
    have htext := Numeral.text_scanExponent Text.isAsciiDigit (letters ++ rest)
    rw [hfst] at htext
    exact Prod.ext hfst htext

theorem hasTail_eq (h : IsTail bare exponent letters rest) :
    hasTail bare ((exponent.map Exponent.text).getD [] ++ (letters ++ rest)) = true := by
  have hrow := h.letters_row
  rw [hasTail]
  simp only [h.scanExponent_eq, Numeral.takeWhile_digits hrow.all hrow.ends]
  cases h with
  | exponent => simp
  | letters _ _ hsome => simpa using hsome

end IsTail

theorem isTail_scanExponent (h : hasTail bare t = true) :
    IsTail bare (Numeral.scanExponent Text.isAsciiDigit t).1
      ((Numeral.scanExponent Text.isAsciiDigit t).2.takeWhile Text.isLetter)
      ((Numeral.scanExponent Text.isAsciiDigit t).2.dropWhile Text.isLetter) := by
  have hletters := isRow_takeWhile Text.isLetter (Numeral.scanExponent Text.isAsciiDigit t).2
  cases hscan : (Numeral.scanExponent Text.isAsciiDigit t).1 with
  | some e =>
    refine .exponent (Numeral.isFormed_of_scanExponent _ t e hscan) ?_ hletters
    rw [List.takeWhile_append_dropWhile]
    exact Numeral.isRow_of_scanExponent _ t e hscan
  | none =>
    have htext := Numeral.text_scanExponent Text.isAsciiDigit t
    rw [hscan] at htext
    have hrest : (Numeral.scanExponent Text.isAsciiDigit t).2 = t := htext
    refine .letters ?_ hletters ?_
    · rw [List.takeWhile_append_dropWhile, hrest]
      exact (Numeral.scanExponent_fst_eq_none_iff Numeral.reads_isAsciiDigit).1 hscan
    · simpa [hasTail, hscan] using h

theorem text_append (a : Attribute) (rest : Text) :
    a.text ++ rest = a.numeral.sign.toList ++ (a.numeral.whole ++ a.behindWhole rest) := by
  rw [text, List.append_assoc, Numeral.text_append]
  rfl

/-! ## Reading a value -/

/-- What stands behind the parts of a value. -/
def afterParts (t : Text) : Text :=
  (Numeral.scanExponent Text.isAsciiDigit (afterDigits t)).2.dropWhile Text.isLetter

theorem behindFraction_parts (t : Text) :
    (parts t).behindFraction (afterParts t) = afterDigits t := by
  simp only [behindFraction, parts, afterParts]
  rw [List.takeWhile_append_dropWhile, Numeral.text_scanExponent]

theorem behindWhole_parts (t : Text) :
    (parts t).behindWhole (afterParts t) = t.dropWhile Text.isAsciiDigit := by
  rw [behindWhole, behindFraction_parts, ← List.append_assoc]
  exact Numeral.text_scanFraction Text.isAsciiDigit _

theorem text_parts_append (t : Text) : (parts t).text ++ afterParts t = t := by
  rw [text_append, behindWhole_parts]
  exact List.takeWhile_append_dropWhile

theorem isValue_parts {c : Char} {r : Text} (hc : Text.isAsciiDigit c = true)
    (h : hasTail bare (afterDigits (c :: r)) = true) :
    IsValue bare (parts (c :: r)) (afterParts (c :: r)) where
  sign := rfl
  ne_nil := by simp [parts, List.takeWhile_cons_of_pos hc]
  whole := by
    rw [behindWhole_parts]
    exact isRow_takeWhile Text.isAsciiDigit (c :: r)
  fraction := by
    rw [behindFraction_parts]
    exact isFraction_scanFraction ((c :: r).dropWhile Text.isAsciiDigit)
  tail := isTail_scanExponent h

theorem exists_isValue_of_scan? {a : Attribute} (h : scan? bare t = some a) :
    ∃ rest, t = a.text ++ rest ∧ IsValue bare a rest := by
  cases t with
  | nil => simp [scan?] at h
  | cons c r =>
    cases hc : Text.isAsciiDigit c with
    | false => simp [scan?, hc] at h
    | true =>
      rw [scan?_cons bare hc] at h
      split at h
      · rename_i htail
        obtain rfl := Option.some.inj h
        exact ⟨_, (text_parts_append _).symm, isValue_parts hc htail⟩
      · simp at h

theorem IsValue.scan?_text_append {a : Attribute} (h : IsValue bare a rest) :
    scan? bare (a.text ++ rest) = some a := by
  obtain ⟨d, whole, hwhole⟩ := List.exists_cons_of_ne_nil h.ne_nil
  have hdigit : Text.isAsciiDigit d = true := h.whole.all d (by simp [hwhole])
  have htext : a.text ++ rest = a.numeral.whole ++ a.behindWhole rest := by
    rw [text_append, h.sign]
    rfl
  have hcons : a.text ++ rest = d :: (whole ++ a.behindWhole rest) := by
    rw [htext, hwhole, List.cons_append]
  have htake := Numeral.takeWhile_digits h.whole.all h.whole.ends
  have hdrop := Numeral.dropWhile_digits h.whole.all h.whole.ends
  have hletters := h.tail.letters_row
  rw [← htext, hcons] at htake hdrop
  rw [hcons, scan?_cons bare hdigit, parts, afterDigits, htake, hdrop]
  simp only [behindWhole, h.fraction.scanFraction_eq]
  simp only [behindFraction, h.tail.scanExponent_eq, h.tail.hasTail_eq,
    Numeral.takeWhile_digits hletters.all hletters.ends, if_true]
  rw [← h.sign]

/-- **A value is read where one stands, and it is the one that stands there.** -/
theorem scan?_eq_some_iff {a : Attribute} :
    scan? bare t = some a ↔ ∃ rest, t = a.text ++ rest ∧ IsValue bare a rest := by
  constructor
  · exact exists_isValue_of_scan?
  · rintro ⟨rest, rfl, hvalue⟩
    exact hvalue.scan?_text_append

/-! ## Places -/

/-- A name may begin at a place of a text: no name goes on there. What stands before the text decides
for its first place, and `glued` tells that it ends in a name. -/
def Opens (glued : Bool) (t : Text) : Nat → Prop
  | 0 => glued = false
  | p + 1 => ∃ c, t[p]? = some c ∧ Text.isNameChar c = false

/-- A key and its value stand at a place of a text. -/
structure HasValueAt (key : Text) (glued : Bool) (t : Text) (p : Nat) (a : Attribute) : Prop where
  opens : Opens glued t p
  value : ∃ rest, t.drop p = key ++ '=' :: (a.text ++ rest) ∧
    IsValue (key == "fingers".toList) a rest

/-- The value that a key has at the first place of a text where it has one. -/
def IsFirst (key : Text) (glued : Bool) (t : Text) (a : Attribute) : Prop :=
  ∃ p, HasValueAt key glued t p a ∧ ∀ q b, HasValueAt key glued t q b → p ≤ q

variable {key : Text} {glued : Bool} {a b : Attribute} {p : Nat}

theorem contains_countKeys (key : Text) : countKeys.contains key = (key == "fingers".toList) := by
  rw [Bool.eq_iff_iff]
  simp [countKeys]

theorem scanKey?_eq_some_iff : scanKey? key t = some a ↔
    ∃ rest, t = key ++ '=' :: (a.text ++ rest) ∧ IsValue (key == "fingers".toList) a rest := by
  have hdrop : ∀ r, (key ++ '=' :: r).drop (key.length + 1) = r := by
    intro r
    simp
  unfold scanKey?
  rw [contains_countKeys]
  constructor
  · intro h
    split at h
    · rename_i hkey
      obtain ⟨r, rfl⟩ := List.isPrefixOf_iff_prefix.1 hkey
      rw [List.append_assoc, List.singleton_append] at h ⊢
      rw [hdrop] at h
      obtain ⟨rest, rfl, hvalue⟩ := scan?_eq_some_iff.1 h
      exact ⟨rest, rfl, hvalue⟩
    · simp at h
  · rintro ⟨rest, rfl, hvalue⟩
    have hkey : (key ++ ['=']).isPrefixOf (key ++ '=' :: (a.text ++ rest)) = true :=
      List.isPrefixOf_iff_prefix.2 ⟨a.text ++ rest, by simp⟩
    rw [if_pos hkey, hdrop]
    exact scan?_eq_some_iff.2 ⟨rest, rfl, hvalue⟩

theorem hasValueAt_zero_iff : HasValueAt key glued t 0 a ↔
    (if glued then none else scanKey? key t) = some a := by
  cases glued with
  | true =>
    constructor
    · intro h
      exact Bool.noConfusion h.opens
    · intro h
      simp at h
  | false =>
    rw [if_neg Bool.false_ne_true, scanKey?_eq_some_iff]
    constructor
    · intro h
      exact h.value
    · intro h
      exact ⟨rfl, h⟩

theorem opens_succ_iff {c : Char} :
    Opens glued (c :: t) (p + 1) ↔ Opens (Text.isNameChar c) t p := by
  cases p with
  | zero => simp [Opens]
  | succ p => rfl

theorem hasValueAt_succ_iff {c : Char} : HasValueAt key glued (c :: t) (p + 1) a ↔
    HasValueAt key (Text.isNameChar c) t p a := by
  constructor
  · intro h
    exact ⟨opens_succ_iff.1 h.opens, h.value⟩
  · intro h
    exact ⟨opens_succ_iff.2 h.opens, h.value⟩

theorem HasValueAt.scanKey?_drop (h : HasValueAt key glued t p a) :
    scanKey? key (t.drop p) = some a :=
  scanKey?_eq_some_iff.2 h.value

theorem not_hasValueAt_nil : ¬ HasValueAt key glued [] p a := by
  intro h
  obtain ⟨rest, hrest, -⟩ := h.value
  simp at hrest

theorem findFrom?_eq_none_iff :
    findFrom? key glued t = none ↔ ∀ p a, ¬ HasValueAt key glued t p a := by
  induction t generalizing glued with
  | nil =>
    constructor
    · intro _ p a
      exact not_hasValueAt_nil
    · intro _
      rfl
  | cons c r ih =>
    rw [findFrom?_cons, Option.or_eq_none_iff, ih]
    constructor
    · rintro ⟨hfirst, hlater⟩ p a h
      cases p with
      | zero =>
        rw [hasValueAt_zero_iff, hfirst] at h
        simp at h
      | succ p => exact hlater p a (hasValueAt_succ_iff.1 h)
    · intro h
      constructor
      · refine Option.eq_none_iff_forall_ne_some.2 fun a ha => ?_
        exact h 0 a (hasValueAt_zero_iff.2 ha)
      · intro p a ha
        exact h (p + 1) a (hasValueAt_succ_iff.2 ha)

theorem isFirst_of_findFrom? (h : findFrom? key glued t = some a) : IsFirst key glued t a := by
  induction t generalizing glued with
  | nil => simp [findFrom?] at h
  | cons c r ih =>
    rw [findFrom?_cons, Option.or_eq_some_iff] at h
    rcases h with hfirst | ⟨hnone, hlater⟩
    · exact ⟨0, hasValueAt_zero_iff.2 hfirst, fun q _ _ => Nat.zero_le q⟩
    · obtain ⟨p, hp, hleast⟩ := ih hlater
      refine ⟨p + 1, hasValueAt_succ_iff.2 hp, fun q b hq => ?_⟩
      cases q with
      | zero =>
        rw [hasValueAt_zero_iff, hnone] at hq
        simp at hq
      | succ q => exact Nat.succ_le_succ (hleast q b (hasValueAt_succ_iff.1 hq))

theorem IsFirst.unique (ha : IsFirst key glued t a) (hb : IsFirst key glued t b) : a = b := by
  obtain ⟨p, hp, hpfirst⟩ := ha
  obtain ⟨q, hq, hqfirst⟩ := hb
  obtain rfl : p = q := Nat.le_antisymm (hpfirst q b hq) (hqfirst p a hp)
  exact Option.some.inj (hp.scanKey?_drop.symm.trans hq.scanKey?_drop)

theorem findFrom?_eq_some_iff : findFrom? key glued t = some a ↔ IsFirst key glued t a := by
  constructor
  · exact isFirst_of_findFrom?
  · intro h
    cases hfound : findFrom? key glued t with
    | none =>
      obtain ⟨p, hp, -⟩ := h
      exact absurd hp (findFrom?_eq_none_iff.1 hfound p a)
    | some b => rw [(isFirst_of_findFrom? hfound).unique h]

/-- **The pattern finds the value at the first place where the key has one,** and it finds none only
where there is no such place. -/
theorem extract?_leftmost (key line : Text) :
    extract? key line = (find? key line).map text ∧
    (∀ v, extract? key line = some v ↔ ∃ a, IsFirst key false line a ∧ a.text = v) ∧
    (extract? key line = none ↔ ∀ p a, ¬ HasValueAt key false line p a) := by
  refine ⟨extract?_eq key line, fun v => ?_, ?_⟩
  · simp only [extract?_eq, Option.map_eq_some_iff, find?, findFrom?_eq_some_iff]
  · rw [extract?_eq, Option.map_eq_none_iff, find?, findFrom?_eq_none_iff]

example : extract? "w".toList "fw=1u w=2 w=1.5.e w=15e-x".toList = some "15e".toList := by
  decide +kernel

end NetlistPrep.Attribute
