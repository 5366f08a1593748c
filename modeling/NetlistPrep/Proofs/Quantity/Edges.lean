import NetlistPrep.Proofs.Quantity.Again

/-!
# Edges between the units

The unit of a quantity is chosen before its digits are rounded. Digits that are rounded up to the
next unit are written as one of a list of texts (`carried`), which are read as a quantity of the
next unit. The texts that are written again as other ones are these and one more (`rewritings`). The
other edges are written as they are read (`exists_ratio`, `edges_of_none`).
-/

namespace NetlistPrep.Quantity

open Float.Model UnpackedFloat Double

/-- Pairs of texts with and without a minus sign. -/
def signed (pairs : List (String × String)) : List (Text × Text) :=
  pairs.flatMap fun p => [(p.1.toList, p.2.toList), ('-' :: p.1.toList, '-' :: p.2.toList)]

/-- The texts whose digits were rounded up to the next unit, with what they are written as again. -/
def carried : List (Text × Text) :=
  signed [("1e-24", "1y"), ("1000y", "1z"), ("1000a", "1f"), ("1000f", "1p"), ("1000p", "1n"),
    ("1000n", "1u"), ("1000u", "1m"), ("10m", "1c"), ("10c", "1d"), ("100d", "1da"), ("10da", "1h"),
    ("10h", "1k"), ("1000k", "1M"), ("1000M", "1G"), ("1000G", "1T"), ("1000T", "1P"),
    ("1000P", "1E"), ("1000E", "1Z"), ("1000Z", "1Y")]

/-- The texts that are written again as another text, with that text. The doubles next to `1e-318`
are so far apart that six digits of the one that is read need a smaller power of ten. -/
def rewritings : List (Text × Text) := signed [("1e-318", "9.99999e-319")] ++ carried

/-- The unit that a text is read in. -/
def unitOf (t : Text) : Option Text := (scan? t).map (·.2)

/-- A text that is written again as another one, which is written as it is read. Its digits were
rounded up if and only if the unit is another one. -/
structure IsRewriting (p : Text × Text) : Prop where
  written : write (read p.1) = p.2
  settled : p.2 ∉ rewritings.map (·.1)
  scans : unitOf p.2 ≠ none
  unit : unitOf p.1 = unitOf p.2 ↔ p.1 ∉ carried.map (·.1)

theorem isRewriting_of_mem {p : Text × Text} (h : p ∈ rewritings) : IsRewriting p := by
  have hall : ∀ p ∈ rewritings, write (read p.1) = p.2 ∧ p.2 ∉ rewritings.map (·.1) ∧
      unitOf p.2 ≠ none ∧ (unitOf p.1 = unitOf p.2 ↔ p.1 ∉ carried.map (·.1)) := by
    decide +kernel
  obtain ⟨hwritten, hsettled, hscans, hunit⟩ := hall p h
  exact ⟨hwritten, hsettled, hscans, hunit⟩

/-- One of the least doubles, doubles whose digits are rounded up to the next unit, and the negative
ones. -/
def edges : List Float :=
  [1.000004e-318, 9.999999e-25, 9.999999e-22, 9.999999e-16, 9.999999e-13, 9.999999e-10,
    9.999999e-7, 9.999999e-4, 9.999999e-3, 9.999999e-2, 9.999999, 99.99999, 999.9999, 999999.9,
    9.999999e8, 9.999999e11, 9.999999e14, 9.999999e17, 9.999999e20, 9.999999e23].flatMap
    fun x => [x, -x]

/-- No text of the list is left out: each one is written for some quantity. -/
theorem exists_write_eq {p : Text × Text} (h : p ∈ rewritings) :
    ∃ x : Float, x.isFinite = true ∧ write x = p.1 := by
  have hall : ∀ q ∈ rewritings.zip edges, q.2.isFinite = true ∧ write q.2 = q.1.1 := by
    decide +kernel
  have hfst : (rewritings.zip edges).map Prod.fst = rewritings := List.map_fst_zip (by decide)
  rw [← hfst] at h
  obtain ⟨q, hq, rfl⟩ := List.mem_map.1 h
  exact ⟨q.2, hall q hq⟩

/-- A unit is ten, a hundred or a thousand times the one before it. That many of the smaller unit
are in the list, or they are written as they are read. -/
theorem exists_ratio {step : (Text × Float) × (Text × Float)} (h : step ∈ steps) :
    ∃ r ≤ 3, IsRatio step r ∧ ∀ s,
      write (read (text s (10 ^ 5) (r - 5) step.1.1)) = text s (10 ^ 5) (r - 5) step.1.1 ∨
      text s (10 ^ 5) (r - 5) step.1.1 ∈ rewritings.map (·.1) := by
  -- The list is asked first, so that only the texts that are not in it are written and read.
  have hall : ∀ step ∈ steps, ∃ r ≤ 3, IsRatio step r ∧ ∀ s ∈ [Sign.positive, Sign.negative],
      text s (10 ^ 5) (r - 5) step.1.1 ∈ rewritings.map (·.1) ∨
      write (read (text s (10 ^ 5) (r - 5) step.1.1)) = text s (10 ^ 5) (r - 5) step.1.1 := by
    decide +kernel
  obtain ⟨r, hr, hratio, htext⟩ := hall step h
  exact ⟨r, hr, hratio, fun s => (htext s (by cases s <;> decide)).symm⟩

/-- Without a unit, zero is written as it is read, and two other numbers are in the list. -/
theorem edges_of_none (s : Sign) : write (read (text s 0 0 [])) = text s 0 0 [] ∧
    text s (10 ^ 5) (-318 - 5) [] ∈ rewritings.map (·.1) ∧
    text s (10 ^ 5) (-24 - 5) [] ∈ rewritings.map (·.1) := by
  cases s <;> decide +kernel

end NetlistPrep.Quantity
