import NetlistPrep.Text

/-!
# Significant digits of a double

A finite double is a whole number times a power of two, so its decimal digits are found by exact
arithmetic on natural numbers.

* `Double.ofFloat` takes a double apart.
* `roundHalfEven` rounds a quotient to the nearest whole number, a half to the even one.
* `Digits.round` gives a chosen number of significant digits, correctly rounded.
* `Digits.shortest` gives the fewest digits that read back as the same double.
-/

namespace NetlistPrep

/-- A double taken apart; a finite one is `mantissa · 2 ^ exponent` with a sign. -/
inductive Double
  | nan
  | infinite (negative : Bool)
  | finite (negative : Bool) (mantissa : Nat) (exponent : Int)
deriving DecidableEq, Repr

def Double.ofFloat (x : Float) : Double :=
  let bits := x.toBits.toNat
  let negative : Bool := bits / Nat.pow 2 63 = 1
  let field : Nat := bits / Nat.pow 2 52 % Nat.pow 2 11
  let fraction : Nat := bits % Nat.pow 2 52
  if field = 2047 then
    if fraction = 0 then .infinite negative else .nan
  else if field = 0 then .finite negative fraction (-1074)
  else .finite negative (Nat.pow 2 52 + fraction) (field - 1075)

/-- The whole number nearest to a quotient; a half goes to the even one. -/
def roundHalfEven (num den : Nat) : Nat :=
  let q := num / den
  let twice := 2 * (num % den)
  if twice < den then q else if den < twice then q + 1 else q + q % 2

/-- Decimal digits `d₀d₁…` with the power of ten that the first of them stands for. -/
structure Digits where
  digits : Text
  exponent : Int
deriving DecidableEq, Repr

namespace Digits

/-- A positive number `mantissa · 2 ^ exponent` as a quotient. -/
def quotient (mantissa : Nat) (exponent : Int) : Nat × Nat :=
  if 0 ≤ exponent then (mantissa * Nat.pow 2 exponent.toNat, 1)
  else (mantissa, Nat.pow 2 (-exponent).toNat)

/-- The power of ten of the first digit of a positive quotient. -/
def leading (num den : Nat) : Int :=
  if den ≤ num then (Nat.toDigits 10 (num / den)).length - 1
  else -(Nat.toDigits 10 ((den - 1) / num)).length

/-- The quotient in units of ten to the power `unit`. -/
def inUnits (num den : Nat) (unit : Int) : Nat × Nat :=
  if 0 ≤ unit then (num, den * Nat.pow 10 unit.toNat) else (num * Nat.pow 10 (-unit).toNat, den)

/-- The digits of `n` units of ten to the power `unit`, without zeros at the end. -/
def ofUnits (n : Nat) (unit : Int) : Digits :=
  let all := Nat.toDigits 10 n
  let kept := Text.dropEnd (· == '0') all
  ⟨if kept = [] then ['0'] else kept, unit + all.length - 1⟩

/-- The first `count` significant digits of a positive quotient, correctly rounded. -/
def round (count num den : Nat) : Digits :=
  let unit := leading num den - count + 1
  let scaled := inUnits num den unit
  ofUnits (roundHalfEven scaled.1 scaled.2) unit

/-- The double that `n` units of ten to the power `unit` read as. -/
def read (n : Nat) (unit : Int) : Float := Float.ofScientific n (unit < 0) unit.natAbs

/-- The neighbours of a positive quotient among the numbers of `count` digits that read as the
double `x`, the nearer one first. -/
def readingBack (x : Float) (count num den : Nat) : List Digits :=
  let unit := leading num den - count + 1
  let scaled := inUnits num den unit
  let below := scaled.1 / scaled.2
  let near := roundHalfEven scaled.1 scaled.2
  let candidates := if near = below then [below, below + 1] else [below + 1, below]
  (candidates.filter fun n => (read n unit).toBits == x.toBits).map (ofUnits · unit)

/-- The fewest significant digits that read as the positive double `x`, which is the quotient, and
the nearest such: seventeen always do. -/
def shortest (x : Float) (num den : Nat) : Digits :=
  (((List.range 17).flatMap fun k => readingBack x (k + 1) num den).head?).getD (round 17 num den)

end Digits

end NetlistPrep
