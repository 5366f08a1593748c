import NetlistPrep.Attribute
import NetlistPrep.Text.Pattern

/-!
# Quantities and attributes as patterns

The written forms of numerals, quantities and attributes as patterns, and what is read with them.
Nothing in a pattern says that a row is to be as long as it can be; only the order in which its ways
are tried does.

* `Quantity.parse` reads the quantity that a text begins with. It turns the text of a group into a
  number, which is refused where that text is no numeral.
* `Attribute.extract?` finds the text of an attribute in a line.
-/

namespace NetlistPrep

namespace Numeral

open Pattern

def signPattern : Pattern := optional (char fun c => c == '+' || c == '-')

def pointPattern : Pattern := char (· == '.')

/-- The mark, the sign and the digits of an exponent. -/
def exponentPattern (digit : Char → Bool) : Pattern :=
  seq (char fun c => c == 'e' || c == 'E') (seq signPattern (many1 digit))

/-- The digits of a numeral, with a point behind a digit or before one. -/
def digitsPattern (digit : Char → Bool) : Pattern :=
  alt (seq (many1 digit) (seq (optional pointPattern) (many digit)))
    (seq pointPattern (many1 digit))

def pattern (digit : Char → Bool) : Pattern :=
  seq signPattern (seq (digitsPattern digit) (optional (exponentPattern digit)))

/-- A text that was to be turned into a number and is no numeral. -/
structure Refused where
  text : Text
deriving DecidableEq, Repr

/-- The number that a text writes from its first character to its last. -/
def convert (t : Text) : Except Refused Float :=
  match scan? Text.isDigit t with
  | some (n, []) => .ok n.value
  | _ => .error ⟨t⟩

end Numeral

namespace Quantity

open Pattern

/-- A numeral, and the unit up to the next blank. -/
def scaledPattern : Pattern :=
  seq (group (Numeral.pattern Text.isDigit)) (group (many fun c => !Text.isBlank c))

/-- A quantity behind blanks. -/
def pattern : Pattern := seq (many Text.isBlank) scaledPattern

/-- The quantity that a text begins with, read by the pattern; no number where it does not match. -/
def parse (t : Text) : Except Numeral.Refused Float :=
  match (pattern.match? t).map (·.groups) with
  | none => return nan
  | some [numeral, unit] => do
    let x ← Numeral.convert numeral
    match multiplier? unit with
    | some m => return x * m
    | none => return x
  | some _ => throw ⟨t⟩

end Quantity

namespace Attribute

open Pattern

/-- What follows all digits of a value: an exponent and letters, or letters alone. Without `bare`
one of the two has to be there. -/
def tailPattern (bare : Bool) : Pattern :=
  let exponent := Numeral.exponentPattern Text.isAsciiDigit
  let letters := many Text.isLetter
  if bare then seq (optional exponent) letters
  else alt (seq exponent letters) (many1 Text.isLetter)

/-- What follows the digits before the point of a value. -/
def fractionPattern (bare : Bool) : Pattern :=
  seq (optional Numeral.pointPattern) (seq (many Text.isAsciiDigit) (tailPattern bare))

/-- The value of an attribute: a numeral without a sign, and letters. -/
def valuePattern (bare : Bool) : Pattern := seq (many1 Text.isAsciiDigit) (fractionPattern bare)

/-- An attribute, whose key is not the tail of a longer name. -/
def pattern (key : Text) : Pattern :=
  seq (notBehind Text.isNameChar)
    (seq (word (key ++ ['='])) (group (valuePattern (countKeys.contains key))))

/-- The text of the first value that a key has in a line, found by the pattern. -/
def extract? (key line : Text) : Option Text :=
  ((pattern key).search? line).bind fun m => m.groups.head?

end Attribute

end NetlistPrep
