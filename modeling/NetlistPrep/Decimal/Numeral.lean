import NetlistPrep.Text.Digit

/-!
# Decimal numerals

The written form of a number: sign, digits with an optional point, exponent. A numeral keeps every
character it was written with, so that `Numeral.text` gives the source back; `Numeral.scan?` reads
the longest numeral at the start of a text and returns what follows (`text_append_of_scan?`).

What counts as a digit is left to the reader of the numeral.
-/

namespace NetlistPrep

structure Exponent where
  mark : Char
  sign : Option Char
  digits : Text
deriving DecidableEq, Repr

/-- A decimal numeral, as written. -/
structure Numeral where
  sign : Option Char
  whole : Text
  point : Bool
  fraction : Text
  exponent : Option Exponent
deriving DecidableEq, Repr

namespace Exponent

def text (e : Exponent) : Text := e.mark :: e.sign.toList ++ e.digits

/-- The power of ten that an exponent stands for. -/
def value (e : Exponent) : Int :=
  if e.sign = some '-' then -(Text.digitsValue e.digits : Int) else Text.digitsValue e.digits

end Exponent

namespace Numeral

def text (n : Numeral) : Text :=
  n.sign.toList ++ n.whole ++ (if n.point then ['.'] else []) ++ n.fraction
    ++ (n.exponent.map Exponent.text).getD []

/-- The number that all the digits write when the point is left out. -/
def mantissa (n : Numeral) : Nat := Text.digitsValue (n.whole ++ n.fraction)

/-- The power of ten that belongs to `mantissa`. -/
def scale (n : Numeral) : Int := (n.exponent.map Exponent.value).getD 0 - n.fraction.length

/-- The double next to the number that a numeral writes; a half goes to the even neighbour. -/
def value (n : Numeral) : Float :=
  let magnitude := Float.ofScientific n.mantissa (n.scale < 0) n.scale.natAbs
  if n.sign = some '-' then -magnitude else magnitude

/-! ## Scanning -/

def scanSign : Text → Option Char × Text
  | [] => (none, [])
  | c :: r => if c == '+' || c == '-' then (some c, r) else (none, c :: r)

def scanFraction (digit : Char → Bool) : Text → Bool × Text × Text
  | '.' :: r => (true, r.takeWhile digit, r.dropWhile digit)
  | t => (false, [], t)

/-- Reads an exponent; without a digit in it there is none. -/
def scanExponent (digit : Char → Bool) : Text → Option Exponent × Text
  | [] => (none, [])
  | mark :: r =>
    if mark == 'e' || mark == 'E' then
      let s := scanSign r
      if s.2.takeWhile digit = [] then (none, mark :: r)
      else (some ⟨mark, s.1, s.2.takeWhile digit⟩, s.2.dropWhile digit)
    else (none, mark :: r)

/-- Reads the longest numeral at the start of a text. There has to be a digit, before or after the
point. -/
def scan? (digit : Char → Bool) (t : Text) : Option (Numeral × Text) :=
  let s := scanSign t
  let whole := s.2.takeWhile digit
  let f := scanFraction digit (s.2.dropWhile digit)
  if whole = [] ∧ f.2.1 = [] then none
  else
    let e := scanExponent digit f.2.2
    some (⟨s.1, whole, f.1, f.2.1, e.1⟩, e.2)

/-! ## Nothing is lost -/

theorem text_scanSign (t : Text) : (scanSign t).1.toList ++ (scanSign t).2 = t := by
  cases t with
  | nil => rfl
  | cons c r => simp only [scanSign]; split <;> simp

theorem text_scanFraction (digit : Char → Bool) (t : Text) :
    (if (scanFraction digit t).1 then ['.'] else []) ++ (scanFraction digit t).2.1
      ++ (scanFraction digit t).2.2 = t := by
  unfold scanFraction
  split <;> simp [List.takeWhile_append_dropWhile]

theorem text_scanExponent (digit : Char → Bool) (t : Text) :
    ((scanExponent digit t).1.map Exponent.text).getD [] ++ (scanExponent digit t).2 = t := by
  cases t with
  | nil => rfl
  | cons mark r =>
    simp only [scanExponent]
    split
    · split
      · simp
      · simp [Exponent.text, List.takeWhile_append_dropWhile, text_scanSign]
    · simp

/-- **A numeral and what follows it are the text that was read.** -/
theorem text_append_of_scan? {digit : Char → Bool} {t rest : Text} {n : Numeral}
    (h : scan? digit t = some (n, rest)) : n.text ++ rest = t := by
  simp only [scan?] at h
  split at h
  · simp at h
  · obtain ⟨rfl, rfl⟩ := Prod.mk.inj (Option.some.inj h)
    have hs := text_scanSign t
    have hf := text_scanFraction digit ((scanSign t).2.dropWhile digit)
    have he := text_scanExponent digit (scanFraction digit ((scanSign t).2.dropWhile digit)).2.2
    have hw := @List.takeWhile_append_dropWhile _ digit (scanSign t).2
    conv => rhs; rw [← hs, ← hw, ← hf, ← he]
    simp [text]

end Numeral

end NetlistPrep
