import NetlistPrep.Decimal.Digits

/-!
# Written decimals

How a double is written once its digits are chosen. The decisions are the fields of `Style`; two
styles are in use: `Style.general` for numbers in netlists and messages, `Style.json` for numbers in
JSON texts.
-/

namespace NetlistPrep

/-- The decisions of a decimal notation. Positional notation begins at `10 ^ -4` in every style. -/
structure Style where
  /-- The power of ten at which positional notation ends. -/
  positionalBelow : Int
  /-- Whole numbers in positional notation end in `.0`. -/
  marksWhole : Bool
  infinity : Text
  nan : Text
deriving Repr

namespace Style

/-- Numbers of six significant digits turn to exponents at a million. -/
def general : Style := ⟨6, false, ['i', 'n', 'f'], ['n', 'a', 'n']⟩

/-- JSON numbers turn to exponents at `10 ^ 16` and show that they are no integers. -/
def json : Style := ⟨16, true, "Infinity".toList, "NaN".toList⟩

/-- The exponent part: a sign and at least two digits. -/
def exponentPart (e : Int) : Text :=
  'e' :: (if e < 0 then '-' else '+')
    :: (if e.natAbs < 10 then '0' :: Nat.toDigits 10 e.natAbs else Nat.toDigits 10 e.natAbs)

/-- Digits from the first power of ten downwards, with the point in its place. -/
def positional (s : Style) (d : Digits) : Text :=
  if d.exponent < 0 then
    '0' :: '.' :: List.replicate (d.exponent.natAbs - 1) '0' ++ d.digits
  else
    let wholeCount := d.exponent.toNat + 1
    let whole := d.digits.take wholeCount ++ List.replicate (wholeCount - d.digits.length) '0'
    match d.digits.drop wholeCount with
    | [] => if s.marksWhole then whole ++ ['.', '0'] else whole
    | fraction => whole ++ '.' :: fraction

/-- One digit before the point, and the exponent. -/
def scientific (d : Digits) : Text :=
  match d.digits with
  | [] => exponentPart d.exponent
  | [first] => first :: exponentPart d.exponent
  | first :: fraction => first :: '.' :: fraction ++ exponentPart d.exponent

/-- Digits in the notation that their size asks for. -/
def write (s : Style) (d : Digits) : Text :=
  if -4 ≤ d.exponent && d.exponent < s.positionalBelow then s.positional d else scientific d

/-- A double, its digits chosen by `choose` from the quotient that a positive one is. -/
def writeFloat (s : Style) (choose : Nat → Nat → Digits) (x : Float) : Text :=
  let signed (negative : Bool) (t : Text) : Text := if negative then '-' :: t else t
  match Double.ofFloat x with
  | .nan => s.nan
  | .infinite negative => signed negative s.infinity
  | .finite negative mantissa exponent =>
    if mantissa = 0 then signed negative (s.write ⟨['0'], 0⟩)
    else
      let q := Digits.quotient mantissa exponent
      signed negative (s.write (choose q.1 q.2))

end Style

namespace Decimal

/-- The text of a double in general notation: six significant digits, no zeros at the end. -/
def general (x : Float) : Text := Style.general.writeFloat (Digits.round 6) x

/-- The shortest JSON text that reads as the same double. -/
def shortest (x : Float) : Text := Style.json.writeFloat (Digits.shortest x.abs) x

end Decimal

end NetlistPrep
