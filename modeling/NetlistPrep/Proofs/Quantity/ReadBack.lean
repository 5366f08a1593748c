import NetlistPrep.Proofs.Decimal.Style
import NetlistPrep.Proofs.Text.Classes
import NetlistPrep.Quantity

/-!
# Quantities that are read back

A written quantity is taken apart again where it was put together. `scan?_text_append_unit` is the
seam between a numeral and a metric unit, `exists_isWritten` the numeral and the unit of every
finite quantity, and `read_write` what the quantity reads as.
-/

namespace NetlistPrep.Quantity

open Float.Model UnpackedFloat

/-! ## Units -/

/-- A metric unit is the largest one that is no larger than a magnitude. -/
structure IsLargest (magnitude : Float) (unit : Text × Float) : Prop where
  mem : unit ∈ units
  le : unit.2 ≤ magnitude
  greatest : ∀ other ∈ units, other.2 ≤ magnitude → other.2 ≤ unit.2

/-- What the units stand for: they are in ascending order, each is a normal double, some unit, which
is ten, parts the large ones from the small quantities, and some unit is small. The table is gone
over once for all of this. -/
theorem units_spec : (units.Pairwise fun a b => a.2 ≤ b.2) ∧
    (∀ unit ∈ units, unit.2 ≤ unit.2 ∧ Double.IsNormal unit.2.toModel.unpack ∧
      -79 ≤ Double.topExponent unit.2.toModel.unpack) ∧
    (∃ ten ∈ units, Double.topExponent ten.2.toModel.unpack ≤ 4 ∧
      ∀ unit ∈ units, ten.2 ≤ unit.2 → 3 ≤ Double.topExponent unit.2.toModel.unpack) ∧
    ∃ least ∈ units, Double.topExponent least.2.toModel.unpack ≤ -17 := by
  decide +kernel

theorem isNormal_of_mem_units {unit : Text × Float} (h : unit ∈ units) :
    Double.IsNormal unit.2.toModel.unpack ∧ -79 ≤ Double.topExponent unit.2.toModel.unpack :=
  (units_spec.2.1 unit h).2

theorem multiplier?_of_mem_units {unit : Text × Float} (h : unit ∈ units) :
    multiplier? unit.1 = some unit.2 := by
  have hall : ∀ unit ∈ units, units.lookup unit.1 = some unit.2 := by
    simp only [units, List.forall_mem_cons]
    simp [List.lookup]
  exact hall unit h

theorem isLargest_of_unitFor? {magnitude : Float} {unit : Text × Float}
    (h : unitFor? magnitude = some unit) : IsLargest magnitude unit := by
  obtain ⟨hle, larger, smaller, hsplit, hlarger⟩ := List.find?_eq_some_iff_append.1 h
  have hunits : units = smaller.reverse ++ unit :: larger.reverse := by
    simpa using congrArg List.reverse hsplit
  have hmem : unit ∈ units := by simp [hunits]
  obtain ⟨hordered, hself, -⟩ := units_spec
  refine ⟨hmem, by simpa using hle, fun other hother hfits => ?_⟩
  rw [hunits] at hother hordered
  rcases List.mem_append.1 hother with hother | hother
  · exact (List.pairwise_append.1 hordered).2.2 other hother unit List.mem_cons_self
  · rcases List.mem_cons.1 hother with rfl | hother
    · exact (hself other hmem).1
    · have hlarge := hlarger other (List.mem_reverse.1 hother)
      simp [hfits] at hlarge

theorem not_le_of_unitFor? {magnitude : Float} (h : unitFor? magnitude = none) :
    ∀ unit ∈ units, ¬ unit.2 ≤ magnitude := by
  intro unit hunit hle
  exact List.find?_eq_none.1 h unit (List.mem_reverse.2 hunit) (decide_eq_true hle)

/-! ## The seam -/

theorem not_isBlank_of_isAsciiDigit {c : Char} (h : Text.isAsciiDigit c = true) :
    Text.isBlank c = false :=
  Text.not_isBlank_of_isDigit (Numeral.reads_isDigit.ascii c h)

theorem dropBlanks_text_append {n : Numeral} (hn : n.IsWritten) (rest : Text) :
    Text.dropBlanks (n.text ++ rest) = n.text ++ rest := by
  obtain ⟨c, r, htext, hc⟩ := hn.exists_text_eq_cons
  have hblank : Text.isBlank c = false := by
    rcases hc with hsign | ⟨-, hdigit⟩
    · have hsigns : ∀ c ∈ ['+', '-'], ¬ Text.isBlank c = true := List.any_eq_false.1 (by decide)
      exact eq_false_of_ne_true (hsigns c (hn.sign c hsign))
    · exact not_isBlank_of_isAsciiDigit hdigit
  rw [Text.dropBlanks, htext, List.cons_append, List.dropWhile_cons_of_neg (by simp [hblank])]

/-- **The seam between a numeral and a unit:** no letter of the unit goes to the numeral. -/
theorem scan?_text_append_unit {n : Numeral} (hn : n.IsWritten) {unit : Text}
    (hunit : unit ∈ [] :: units.map (·.1)) : scan? (n.text ++ unit) = some (n, unit) := by
  have hseam : ∀ unit ∈ [] :: units.map (·.1), Numeral.Ends Text.isDigit unit ∧
      (unit.takeWhile fun c => !Text.isBlank c) = unit := by
    decide
  obtain ⟨hends, hword⟩ := hseam unit hunit
  rw [scan?, dropBlanks_text_append hn, Numeral.scan?_text_append Numeral.reads_isDigit hn hends,
    Option.map_some, hword]

theorem scan?_text {n : Numeral} (hn : n.IsWritten) :
    Numeral.scan? Text.isDigit n.text = some (n, []) := by
  have hscan := Numeral.scan?_text_append Numeral.reads_isDigit hn
    (Numeral.ends_nil Text.isDigit)
  rwa [List.append_nil] at hscan

/-! ## Finite quantities -/

/-- **A finite quantity in its unit is finite.** -/
theorem isFinite_div_unit {x : Float} (hx : x.isFinite = true) {unit : Text × Float}
    (h : IsLargest x.abs unit) : (x / unit.2).isFinite = true := by
  obtain ⟨hnormal, hsmall⟩ := isNormal_of_mem_units h.mem
  obtain ⟨ten, hten, htop, hlarge⟩ := units_spec.2.2.1
  have hx1024 := Double.topExponent_le x
  refine Double.isFinite_div hx hnormal ?_
  by_cases hge : ten.2 ≤ x.abs
  · have := hlarge unit h.mem (h.greatest ten hten hge)
    omega
  · have := Double.topExponent_le_of_not_le (isNormal_of_mem_units hten).1 hx hge
    omega

/-- The numeral and the unit that a quantity is written with. -/
structure IsWritten (x : Float) (n : Numeral) (unit : Text) : Prop where
  numeral : n.IsWritten
  text : write x = n.text ++ unit
  choice : (∃ divisor, IsLargest x.abs (unit, divisor) ∧ n.text = Decimal.general (x / divisor)) ∨
    (unit = [] ∧ (∀ unit ∈ units, ¬ unit.2 ≤ x.abs) ∧ n.text = Decimal.general x)
  sign : n.sign = if Double.sign? x.toModel.unpack == some .negative then some '-' else none
  marked : (∀ s, x.toModel.unpack ≠ .zero s) → n.exponent.isSome = true ∨ unit ≠ []

theorem IsWritten.unit_mem {x : Float} {n : Numeral} {unit : Text} (h : IsWritten x n unit) :
    unit ∈ [] :: units.map (·.1) := by
  rcases h.choice with ⟨divisor, hlargest, -⟩ | ⟨rfl, -⟩
  · exact List.mem_cons_of_mem _ (List.mem_map_of_mem hlargest.mem)
  · exact List.mem_cons_self

/-- A written quantity is taken apart where it was put together. -/
theorem IsWritten.scan?_write {x : Float} {n : Numeral} {unit : Text} (h : IsWritten x n unit) :
    scan? (write x) = some (n, unit) := by
  rw [h.text]
  exact scan?_text_append_unit h.numeral h.unit_mem

theorem IsWritten.read_write_eq {x : Float} {n : Numeral} {unit : Text} (h : IsWritten x n unit) :
    read (write x) = scale n unit := by
  simp only [read, h.scan?_write]

/-- **A finite quantity is written as a numeral and a unit.** One that is not zero has a unit or an
exponent. -/
theorem exists_isWritten {x : Float} (hx : x.isFinite = true) : ∃ n unit, IsWritten x n unit := by
  cases hu : unitFor? x.abs with
  | some unit =>
    have hlargest := isLargest_of_unitFor? hu
    have hne : ∀ unit ∈ units, unit.1 ≠ [] := by decide
    obtain ⟨n, hn, htext, hsign, -⟩ :=
      Decimal.exists_numeral_general (isFinite_div_unit hx hlargest)
    rw [Double.sign?_div_of_isNormal x (isNormal_of_mem_units hlargest.mem).1] at hsign
    refine ⟨n, unit.1, hn, ?_, .inl ⟨unit.2, hlargest, htext⟩, hsign,
      fun _ => .inr (hne unit hlargest.mem)⟩
    simp only [write, hu, htext]
  | none =>
    have hnone := not_le_of_unitFor? hu
    obtain ⟨least, hleast, htop⟩ := units_spec.2.2.2
    have hsmall := Double.topExponent_le_of_not_le (isNormal_of_mem_units hleast).1 hx
      (hnone least hleast)
    obtain ⟨n, hn, htext, hsign, hexponent⟩ := Decimal.exists_numeral_general hx
    refine ⟨n, [], hn, ?_, .inr ⟨rfl, hnone, htext⟩, hsign,
      fun hzero => .inl (hexponent (Int.le_trans hsmall htop) hzero)⟩
    simp only [write, hu, htext, List.append_nil]

/-- **Reading takes apart what writing put together.** A finite quantity is written as the text of a
number and a unit: the largest unit that fits and the quantity in that unit, or no unit and the
quantity itself. Reading finds that number and that unit, and multiplies the one by the other. -/
theorem read_write {x : Float} (hx : x.isFinite = true) :
    ∃ (m u : Text) (n : Numeral), write x = m ++ u ∧
      Numeral.scan? Text.isDigit m = some (n, []) ∧ scan? (write x) = some (n, u) ∧
      ((∃ divisor, IsLargest x.abs (u, divisor) ∧ m = Decimal.general (x / divisor) ∧
          multiplier? u = some divisor ∧ read (write x) = n.value * divisor) ∨
        (u = [] ∧ (∀ unit ∈ units, ¬ unit.2 ≤ x.abs) ∧ m = Decimal.general x ∧
          read (write x) = n.value)) := by
  obtain ⟨n, u, h⟩ := exists_isWritten hx
  refine ⟨n.text, u, n, h.text, scan?_text h.numeral, h.scan?_write, ?_⟩
  rw [h.read_write_eq, scale]
  rcases h.choice with ⟨divisor, hlargest, htext⟩ | ⟨rfl, hnone, htext⟩
  · have hmultiplier := multiplier?_of_mem_units hlargest.mem
    exact .inl ⟨divisor, hlargest, htext, hmultiplier, by rw [hmultiplier]⟩
  · have hmultiplier : multiplier? [] = none := by simp [multiplier?, units, List.lookup]
    exact .inr ⟨rfl, hnone, htext, by rw [hmultiplier]⟩

/-- The lowest double is written with an exponent and a unit, and read as a number in that unit. -/
theorem read_write_lowest : Float.isFinite (-1.7976931348623157e308) = true ∧
    write (-1.7976931348623157e308) = "-1.79769e+284Y".toList ∧
    IsLargest (Float.abs (-1.7976931348623157e308)) (['Y'], 1e24) ∧
    multiplier? ['Y'] = some 1e24 ∧
    read (write (-1.7976931348623157e308)) = -1.79769e284 * 1e24 := by
  have hx : Float.isFinite (-1.7976931348623157e308) = true := by decide +kernel
  have htext : write (-1.7976931348623157e308) = "-1.79769e+284Y".toList := by decide +kernel
  have hparts : scan? "-1.79769e+284Y".toList = some
      (⟨some '-', ['1'], true, "79769".toList, some ⟨'e', some '+', "284".toList⟩⟩, ['Y']) := by
    decide +kernel
  have hunit : multiplier? ['Y'] = some 1e24 := by decide +kernel
  obtain ⟨m, u, n, -, -, hscan, hchoice⟩ := read_write hx
  rw [htext, hparts] at hscan
  obtain ⟨rfl, rfl⟩ := Prod.mk.inj (Option.some.inj hscan)
  obtain ⟨divisor, hlargest, -, hmultiplier, hread⟩ | ⟨hnone, -⟩ := hchoice
  · obtain rfl : divisor = 1e24 := Option.some.inj (hmultiplier.symm.trans hunit)
    exact ⟨hx, htext, hlargest, hunit, hread.trans (by decide +kernel)⟩
  · cases hnone

end NetlistPrep.Quantity
