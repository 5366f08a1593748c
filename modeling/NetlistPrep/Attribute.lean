import NetlistPrep.Quantity
import NetlistPrep.Text.Letter

/-!
# Attributes of a line

An attribute is written `key=value`, where the value is a plain numeral with unit letters. The key
must not be the tail of a longer name: `fw=` holds no `w=`. An exponent may stand in the place of
the unit letters, and a count may have neither.

* `Attribute.scan?` reads a value at the start of a text.
* `Attribute.find?` finds the first place of a line where a key has a value.
* `Attribute.value?` is the quantity that the value writes.
-/

namespace NetlistPrep

/-- The value of an attribute, as written: a numeral without a sign, and letters. -/
structure Attribute where
  numeral : Numeral
  unit : Text
deriving DecidableEq, Repr

namespace Attribute

def text (a : Attribute) : Text := a.numeral.text ++ a.unit

/-- Keys whose value is a count and needs no unit. -/
def countKeys : List Text := ["fingers".toList]

/-- Reads a value. It begins with a digit and goes on as far as it can; without `bare` it needs an
exponent or a letter. -/
def scan? (bare : Bool) : Text → Option Attribute
  | [] => none
  | c :: r =>
    if Text.isAsciiDigit c then
      match Numeral.scan? Text.isAsciiDigit (c :: r) with
      | none => none
      | some (n, rest) =>
        let unit := rest.takeWhile Text.isLetter
        if bare || n.exponent.isSome || !unit.isEmpty then some ⟨n, unit⟩ else none
    else none

/-- Reads `key=value` at the start of a text. -/
def scanKey? (key t : Text) : Option Attribute :=
  if (key ++ ['=']).isPrefixOf t then scan? (countKeys.contains key) (t.drop (key.length + 1))
  else none

/-- The first value that a key has in a text; `glued` tells that the text goes on from a name. -/
def findFrom? (key : Text) (glued : Bool) : Text → Option Attribute
  | [] => none
  | c :: r =>
    match if glued then none else scanKey? key (c :: r) with
    | some a => some a
    | none => findFrom? key (Text.isNameChar c) r

/-- The search stops at the first place of a text or goes on behind its first character. -/
theorem findFrom?_cons (key : Text) (glued : Bool) (c : Char) (r : Text) :
    findFrom? key glued (c :: r) = (if glued then none else scanKey? key (c :: r)).or
      (findFrom? key (Text.isNameChar c) r) := by
  rw [findFrom?]
  cases (if glued then none else scanKey? key (c :: r)) <;> rfl

def find? (key line : Text) : Option Attribute := findFrom? key false line

/-- The quantity of a key in a line; a value that is no number counts as absent. -/
def value? (key line : Text) : Option Float :=
  ((find? key line).map fun a => Quantity.read a.text).filter fun x => !x.isNaN

end Attribute

end NetlistPrep
