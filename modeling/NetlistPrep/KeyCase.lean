import NetlistPrep.Netlist.Rewrite

/-!
# The case of attribute keys

Attribute keys written in capitals are rewritten in small letters. A key is known by the blank
before it and the equals sign behind it; the replacements are made one after the other over the
whole line.
-/

namespace NetlistPrep

namespace KeyCase

/-- A word and what takes its place. -/
abbrev Replacement := Text × Text

def standard : List Replacement :=
  [(" W=", " w="), (" L=", " l="), (" AREA=", " area="), (" PJ=", " pj="), (" M=", " m="),
    (" FW=", " fw="), (" C=", " c="), (" R=", " r="), (" FINGERS=", " fingers=")].map fun r =>
      (r.1.toList, r.2.toList)

/-- Makes the replacements one after the other. -/
def lowerKeys (replacements : List Replacement) (line : Text) : Text :=
  replacements.foldl (fun t r => Text.replaceAll r.1 r.2 t) line

end KeyCase

/-- Makes the replacements in every line and counts the lines that changed. -/
def Netlist.lowerKeys (replacements : List KeyCase.Replacement) (n : Netlist) : Edited Nat :=
  n.rewrite (KeyCase.lowerKeys replacements)

end NetlistPrep
