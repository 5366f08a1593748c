import NetlistPrep.Attribute
import NetlistPrep.Rectangle

/-!
# Recovered geometry

A device line that gives width and length gets its finger width; one that gives area and perimeter
gets the width and length of that rectangle. Both are written behind the line, which itself stays as
it is (`line_prefix_text`).
-/

namespace NetlistPrep

/-- An area and a perimeter that no rectangle has. -/
structure Unsolved where
  area : Float
  perimeter : Float

def Unsolved.message (u : Unsolved) : Text :=
  "no rectangle with area=".toList ++ Decimal.general u.area
    ++ " pj=".toList ++ Decimal.general u.perimeter

/-- What is recovered from one line: the line as it is written afterwards, and the quantities
found. -/
structure Recovery where
  text : Text
  finger : Option Float
  rectangle : Option Rectangle
  unsolved : Option Unsolved

namespace Recovery

/-- The finger width of a line that gives width and length. -/
def finger? (line : Text) : Option Float :=
  match Attribute.value? ['w'] line, Attribute.value? ['l'] line with
  | some w, some _ => some (fingerWidth w (Attribute.value? "fingers".toList line))
  | _, _ => none

/-- Area and perimeter of a line that gives both. -/
def outline? (line : Text) : Option (Float × Float) :=
  match Attribute.value? "area".toList line, Attribute.value? ['p', 'j'] line with
  | some area, some perimeter => some (area, perimeter)
  | _, _ => none

def fingerText (width : Float) : Text := " fw=".toList ++ Quantity.write width

def rectangleText (r : Rectangle) : Text :=
  " w=".toList ++ Quantity.write r.width ++ " l=".toList ++ Quantity.write r.length

/-- Recovers what a line gives. Area and perimeter are looked for once the finger width is
written. -/
def ofLine (line : Text) : Recovery :=
  let finger := finger? line
  let widened := line ++ (finger.map fingerText).getD []
  match outline? widened with
  | none => ⟨widened, finger, none, none⟩
  | some (area, perimeter) =>
    match Rectangle.solve? area perimeter with
    | none => ⟨widened, finger, none, some ⟨area, perimeter⟩⟩
    | some r => ⟨widened ++ rectangleText r, finger, some r, none⟩

/-- Tells whether anything was written behind the line. -/
def changed (r : Recovery) : Bool := r.finger.isSome || r.rectangle.isSome

/-- Nothing of the line is lost. -/
theorem line_prefix_text (line : Text) : line <+: (ofLine line).text := by
  simp only [ofLine]
  split
  · exact List.prefix_append _ _
  · split
    · exact List.prefix_append _ _
    · exact (List.prefix_append _ _).trans (List.prefix_append _ _)

end Recovery

end NetlistPrep
