import Mathlib
import NetlistPrep.Proofs.Outcome
import NetlistPrep.Recovery

/-!
# Arithmetic that is always defined

Quotients and roots of doubles always have a value here, also a quotient by zero and the root of a
negative number. Recovery has no use for either.

* `divide` and `root` are the two steps as arithmetic without such values has them: they are refused
  where they are not defined.
* `Recovery.ofLineDefined` is recovery in these steps.
* `Recovery.ofLineDefined_eq` says that it is refused for no line and gives what `Recovery.ofLine`
  gives: every divisor is a metric unit, a two, a positive length or a positive number of fingers,
  and every root is that of a discriminant that is not negative.
-/

namespace NetlistPrep

namespace Arithmetic

/-- Why a step of arithmetic is not defined. -/
inductive Undefined
  | quotientByZero
  | rootOfNegative
deriving DecidableEq, Repr

def divide (x y : Float) : Except Undefined Float :=
  if y == 0 then .error .quotientByZero else .ok (x / y)

def root (x : Float) : Except Undefined Float :=
  if x < 0 then .error .rootOfNegative else .ok x.sqrt

/-! ### Comparisons with zero -/

open Float.Model in
theorem pos_iff_compare {x : Float} :
    0 < x ↔ UnpackedFloat.compare (.zero .positive) x.toModel.unpack = some .lt := by
  have hlt : 0 < x ↔ (0 : Float).toModel < x.toModel := decide_eq_true_iff
  exact hlt.trans beq_iff_eq

open Float.Model in
theorem beq_zero_iff_compare {x : Float} :
    (x == 0) = true ↔ x.toModel.unpack.compare (.zero .positive) = some .eq := by
  have hbeq : (x == 0) = true ↔
    (x.toModel.unpack.compare (.zero .positive) == some Ordering.eq) = true := Iff.rfl
  exact hbeq.trans beq_iff_eq

open Float.Model in
theorem not_beq_zero_of_pos {x : Float} (h : 0 < x) : ¬ (x == 0) = true := by
  rw [pos_iff_compare] at h
  rw [beq_zero_iff_compare]
  revert h
  cases x.toModel.unpack with
  | infinity sign => cases sign <;> simp [UnpackedFloat.compare]
  | notANumber => simp [UnpackedFloat.compare]
  | zero sign => simp [UnpackedFloat.compare]
  | finite sign mantissa exponent positive => cases sign <;> simp [UnpackedFloat.compare]

theorem le_zero_of_beq {x : Float} (h : (x == 0) = true) : x ≤ 0 := by
  have hle : x ≤ 0 ↔ x.toModel ≤ (0 : Float).toModel := decide_eq_true_iff
  have hcompare : (x.toModel.unpack.compare (.zero .positive)).any (·.isLE) = true := by
    rw [beq_zero_iff_compare.1 h]
    rfl
  exact hle.2 hcompare

theorem divide_eq_of_pos {y : Float} (h : 0 < y) (x : Float) : divide x y = .ok (x / y) :=
  if_neg (not_beq_zero_of_pos h)

theorem divide_eq_of_not_le {y : Float} (h : ¬ y ≤ 0) (x : Float) : divide x y = .ok (x / y) :=
  if_neg fun hzero => h (le_zero_of_beq hzero)

theorem divide_two (x : Float) : divide x 2 = .ok (x / 2) := divide_eq_of_pos (by decide) x

theorem root_eq_of_not_neg {x : Float} (h : ¬ x < 0) : root x = .ok x.sqrt := if_neg h

end Arithmetic

open Arithmetic

/-! ## Rectangles and fingers -/

namespace Rectangle

def ofLengthDefined (area length : Float) : Except Undefined Rectangle :=
  return ⟨← divide area length, length⟩

def rootsDefined (area half : Float) : Except Undefined (Option (Float × Float)) := do
  let delta := half * half - 4 * area
  if delta < 0 then return none
  return some (← divide (half + (← root delta)) 2, ← divide (half - (← root delta)) 2)

def solveDefined (area pj : Float) : Except Undefined (Option Rectangle) := do
  match ← rootsDefined area (← divide pj 2) with
  | none => return none
  | some (l1, l2) =>
    match ← ([l1, l2].filter fun l => 0 < l).mapM (ofLengthDefined area) with
    | [] => return none
    | [only] => return some only
    | first :: second :: _ => return some (if first.length < first.width then second else first)

/-- The root that is taken is that of a discriminant that is not negative. -/
theorem rootsDefined_eq (area half : Float) : rootsDefined area half = .ok (roots? area half) := by
  unfold rootsDefined roots?
  by_cases h : half * half - 4 * area < 0
  · simp only [h, if_true]
    rfl
  · simp only [h, if_false, root_eq_of_not_neg h, divide_two]
    rfl

theorem mapM_ofLengthDefined_eq (area : Float) {lengths : List Float} (h : ∀ l ∈ lengths, 0 < l) :
    lengths.mapM (ofLengthDefined area) = .ok (lengths.map (ofLength area)) := by
  induction lengths with
  | nil => rfl
  | cons l rest ih =>
    have hl : ofLengthDefined area l = .ok (ofLength area l) := by
      rw [ofLengthDefined, divide_eq_of_pos (h l List.mem_cons_self)]
      rfl
    rw [List.mapM_cons, hl, ih fun l' hl' => h l' (List.mem_cons_of_mem _ hl')]
    rfl

/-- The lengths that an area is divided by are positive. -/
theorem solveDefined_eq (area pj : Float) : solveDefined area pj = .ok (solve? area pj) := by
  unfold solveDefined solve?
  rw [divide_two, Outcome.ok_bind, rootsDefined_eq, Outcome.ok_bind]
  cases roots? area (pj / 2) with
  | none => rfl
  | some sides =>
    obtain ⟨l1, l2⟩ := sides
    have hpositive : ∀ l ∈ [l1, l2].filter fun l => 0 < l, 0 < l :=
      fun l hl => by simpa using (List.mem_filter.1 hl).2
    simp only [mapM_ofLengthDefined_eq area hpositive, Outcome.ok_bind]
    generalize ([l1, l2].filter fun l => 0 < l).map (ofLength area) = candidates
    rcases candidates with _ | ⟨first, _ | ⟨second, rest⟩⟩ <;> rfl

end Rectangle

def fingerWidthDefined (width : Float) : Option Float → Except Undefined Float
  | none => .ok width
  | some fingers => if fingers.isNaN || fingers ≤ 0 then .ok width else divide width fingers

theorem fingerWidthDefined_eq (width : Float) (fingers : Option Float) :
    fingerWidthDefined width fingers = .ok (fingerWidth width fingers) := by
  cases fingers with
  | none => rfl
  | some n =>
    simp only [fingerWidthDefined, fingerWidth]
    split
    · rfl
    · rename_i h
      refine divide_eq_of_not_le (fun hle => h ?_) width
      simp [hle]

/-! ## Quantities -/

namespace Quantity

def writeDefined (x : Float) : Except Undefined Text :=
  match unitFor? x.abs with
  | some (unit, divisor) => return Decimal.general (← divide x divisor) ++ unit
  | none => return Decimal.general x

theorem units_positive : ∀ unit ∈ units, 0 < unit.2 := by
  have hall : units.all (fun unit => 0 < unit.2) = true := by decide +kernel
  intro unit hunit
  simpa using List.all_eq_true.1 hall unit hunit

theorem writeDefined_eq (x : Float) : writeDefined x = .ok (write x) := by
  unfold writeDefined write
  cases h : unitFor? x.abs with
  | none => rfl
  | some unit =>
    have hmem : unit ∈ units := List.mem_reverse.1 (List.mem_of_find?_eq_some h)
    simp only [divide_eq_of_pos (units_positive unit hmem)]
    rfl

end Quantity

/-! ## Recovery -/

namespace Recovery

def fingerDefined (line : Text) : Except Undefined (Option Float) :=
  match Attribute.value? ['w'] line, Attribute.value? ['l'] line with
  | some w, some _ =>
    return some (← fingerWidthDefined w (Attribute.value? "fingers".toList line))
  | _, _ => return none

/-- A line with the finger width behind it, where there is one. -/
def widenedDefined (line : Text) : Option Float → Except Undefined Text
  | none => return line
  | some width => return line ++ (" fw=".toList ++ (← Quantity.writeDefined width))

def rectangleTextDefined (r : Rectangle) : Except Undefined Text :=
  return " w=".toList ++ (← Quantity.writeDefined r.width) ++ " l=".toList
    ++ (← Quantity.writeDefined r.length)

/-- Recovers what a line gives in arithmetic that refuses what is not defined. -/
def ofLineDefined (line : Text) : Except Undefined Recovery := do
  let finger ← fingerDefined line
  let widened ← widenedDefined line finger
  match outline? widened with
  | none => return ⟨widened, finger, none, none⟩
  | some (area, perimeter) =>
    match ← Rectangle.solveDefined area perimeter with
    | none => return ⟨widened, finger, none, some ⟨area, perimeter⟩⟩
    | some r => return ⟨widened ++ (← rectangleTextDefined r), finger, some r, none⟩

theorem fingerDefined_eq (line : Text) : fingerDefined line = .ok (finger? line) := by
  unfold fingerDefined finger?
  cases Attribute.value? ['w'] line with
  | none => rfl
  | some w =>
    cases Attribute.value? ['l'] line with
    | none => rfl
    | some l =>
      simp only [fingerWidthDefined_eq]
      rfl

theorem widenedDefined_eq (line : Text) (finger : Option Float) :
    widenedDefined line finger = .ok (line ++ (finger.map fingerText).getD []) := by
  cases finger with
  | none => exact congrArg Except.ok (List.append_nil line).symm
  | some width =>
    rw [widenedDefined, Quantity.writeDefined_eq]
    rfl

theorem rectangleTextDefined_eq (r : Rectangle) :
    rectangleTextDefined r = .ok (rectangleText r) := by
  rw [rectangleTextDefined, Quantity.writeDefined_eq, Quantity.writeDefined_eq]
  rfl

/-- **Recovery is defined for every line:** it divides by no zero and takes the root of no negative
number. -/
theorem ofLineDefined_eq (line : Text) : ofLineDefined line = .ok (ofLine line) := by
  simp only [ofLineDefined, ofLine, fingerDefined_eq, widenedDefined_eq, Outcome.ok_bind]
  generalize line ++ ((finger? line).map fingerText).getD [] = widened
  cases outline? widened with
  | none => rfl
  | some outline =>
    obtain ⟨area, perimeter⟩ := outline
    simp only [Rectangle.solveDefined_eq, Outcome.ok_bind]
    cases Rectangle.solve? area perimeter with
    | none => rfl
    | some r =>
      simp only [rectangleTextDefined_eq]
      rfl

end Recovery

end NetlistPrep
