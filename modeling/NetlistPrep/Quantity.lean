import NetlistPrep.Decimal.Numeral
import NetlistPrep.Decimal.Style
import NetlistPrep.Text.Blank

/-!
# Quantities

A quantity is a number with a metric unit letter, such as `2.5u`. Reading takes a numeral and the
unit behind it apart (`scan?`) and scales the number where the whole unit is a metric one; any other
unit is left out of account. Writing uses the largest metric unit that fits (`unitFor?`).
-/

namespace NetlistPrep.Quantity

/-- The metric units with what they stand for, in ascending order. -/
def units : List (Text × Float) :=
  [(['y'], 1e-24), (['z'], 1e-21), (['a'], 1e-18), (['f'], 1e-15), (['p'], 1e-12), (['n'], 1e-9),
   (['u'], 1e-6), (['m'], 1e-3), (['c'], 1e-2), (['d'], 1e-1), (['d', 'a'], 1e1), (['h'], 1e2),
   (['k'], 1e3), (['M'], 1e6), (['G'], 1e9), (['T'], 1e12), (['P'], 1e15), (['E'], 1e18),
   (['Z'], 1e21), (['Y'], 1e24)]

/-- What a unit multiplies by, if it is a metric one. -/
def multiplier? (unit : Text) : Option Float := units.lookup unit

/-- The numeral that a text begins with, behind blanks, and the unit that follows it up to the next
blank. -/
def scan? (t : Text) : Option (Numeral × Text) :=
  (Numeral.scan? Text.isDigit (Text.dropBlanks t)).map fun found =>
    (found.1, found.2.takeWhile fun c => !Text.isBlank c)

/-- The value of a numeral with a unit. -/
def scale (n : Numeral) (unit : Text) : Float :=
  match multiplier? unit with
  | some m => n.value * m
  | none => n.value

def nan : Float := 0 / 0

/-- The quantity that a text begins with; no number where it begins with none. -/
def read (t : Text) : Float :=
  match scan? t with
  | some (n, unit) => scale n unit
  | none => nan

/-- The largest metric unit that is no larger than a magnitude. -/
def unitFor? (magnitude : Float) : Option (Text × Float) :=
  units.reverse.find? fun unit => unit.2 ≤ magnitude

/-- A quantity in its largest fitting unit, with six significant digits. -/
def write (x : Float) : Text :=
  match unitFor? x.abs with
  | some (unit, divisor) => Decimal.general (x / divisor) ++ unit
  | none => Decimal.general x

end NetlistPrep.Quantity
