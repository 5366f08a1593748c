import NetlistPrep.Fingerprint

/-!
# Provenance

What a piece of work did to a netlist: fingerprints of what went in and came out, and how many lines
there were, were put in and were rewritten.
-/

namespace NetlistPrep

/-- The account of a piece of work. -/
structure Provenance where
  operator : Text
  version : Text := "0.0".toList
  inputs : List (Text × Fingerprint) := []
  outputs : List (Text × Fingerprint) := []
  linesIn : Int := 0
  linesOut : Int := 0
  inserted : Int := 0
  rewritten : Int := 0
deriving DecidableEq, Repr

namespace Provenance

/-- The account with which work of no name begins. -/
def unnamed : Provenance := { operator := "unknown".toList }

/-- The version that the operators of this library give. -/
def currentVersion : Text := "0.1.0".toList

/-- The name under which a netlist is listed among inputs and outputs. -/
def netlistKey : Text := "line_store".toList

def summary (p : Provenance) : Text :=
  p.operator ++ ": ".toList ++ Text.ofInt p.linesIn ++ " -> ".toList ++ Text.ofInt p.linesOut
    ++ " lines, ".toList ++ Text.ofInt p.inserted ++ " inserted, ".toList
    ++ Text.ofInt p.rewritten ++ " rewritten".toList

end Provenance

end NetlistPrep
