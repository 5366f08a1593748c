import NetlistPrep.Netlist

/-!
# Slices of a netlist

A slice takes the lines at evenly spaced positions, forwards or backwards. Its bounds may be left
out, may count from the end, and may lie outside the netlist.
-/

namespace NetlistPrep.Netlist

/-- A bound as a position between `low` and `high`; a negative bound counts from the end. -/
def clampBound (size : Nat) (low high bound : Int) : Int :=
  if bound < 0 then max (bound + size) low else min bound high

/-- The positions that a slice takes, in its order. -/
def slicePositions (size : Nat) (start stop : Option Int) (step : Int) : List Nat :=
  let low : Int := if step < 0 then -1 else 0
  let high : Int := if step < 0 then size - 1 else size
  let first := (start.map (clampBound size low high)).getD (if step < 0 then high else low)
  let bound := (stop.map (clampBound size low high)).getD (if step < 0 then low else high)
  let distance := if step < 0 then first - bound else bound - first
  let count := ((distance + step.natAbs - 1) / step.natAbs).toNat
  (List.range count).map fun (k : Nat) => (first + k * step).toNat

/-- The texts of the lines that a slice takes. -/
def slice (n : Netlist) (start stop : Option Int) (step : Option Int) :
    Except Fault (List Text) :=
  if step = some 0 then .error .zeroStep
  else .ok ((slicePositions n.size start stop (step.getD 1)).filterMap (n.texts[·]?))

end NetlistPrep.Netlist
