import NetlistPrep.Text

/-!
# Rectangles

A rectangle from its area and its perimeter: its sides are the roots of `x² - (pj/2) x + area`. The
length is the first root that is positive and no shorter than the width, if there is one; all
arithmetic is that of doubles in the order written here.
-/

namespace NetlistPrep

structure Rectangle where
  width : Float
  length : Float

namespace Rectangle

/-- The rectangle of an area with a given length. -/
def ofLength (area length : Float) : Rectangle := ⟨area / length, length⟩

/-- The larger and the smaller root of `x² - half · x + area`, unless they are not real. -/
def roots? (area half : Float) : Option (Float × Float) :=
  let delta := half * half - 4 * area
  if delta < 0 then none
  else some ((half + delta.sqrt) / 2, (half - delta.sqrt) / 2)

/-- The rectangle with an area and a perimeter, if one has a positive length. -/
def solve? (area pj : Float) : Option Rectangle :=
  match roots? area (pj / 2) with
  | none => none
  | some (l1, l2) =>
    match ([l1, l2].filter fun l => 0 < l).map (ofLength area) with
    | [] => none
    | [only] => some only
    | first :: second :: _ => some (if first.length < first.width then second else first)

end Rectangle

/-- The width of one finger; without a positive number of fingers there is one. -/
def fingerWidth (width : Float) : Option Float → Float
  | none => width
  | some fingers => if fingers.isNaN || fingers ≤ 0 then width else width / fingers

end NetlistPrep
