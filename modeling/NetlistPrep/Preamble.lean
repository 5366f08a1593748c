import NetlistPrep.Netlist.Rewrite

/-!
# The preamble of a netlist

What a netlist has in front of its devices: section declarations and comment banners.

* `ensureSections` puts the default line of every section that no line begins in front, one by one,
  so that they come out in reverse order.
* `prependBanner` puts a banner in front unless its marker line is there already.
-/

namespace NetlistPrep

/-- A section: some line has to begin with its marker, or its default line is put in. -/
structure Section where
  marker : Text
  defaultLine : Text
deriving DecidableEq, Repr

namespace Section

/-- The section of a marker; without a default line the marker itself is one. -/
def ofMarker (marker : Text) : Option Text → Section
  | none | some [] => ⟨marker, marker⟩
  | some line => ⟨marker, line⟩

/-- The sections that every netlist declares. -/
def standard : List Section :=
  [".PARAM", "*.MEGA", "*.EQUATION", "*.DIOAREA", "*.DIOPERI", "*.CAPVAL", "*.RESVAL",
    "*.BIPOLAR"].map fun marker => ofMarker marker.toList none

/-- Tells whether some line of a netlist begins with the marker. -/
def isIn (s : Section) (n : Netlist) : Bool := n.texts.any fun t => s.marker.isPrefixOf t

end Section

/-- The lines of a banner, and the one of them by which it is recognised. -/
structure Banner where
  lines : List Text
  marker : Text
deriving DecidableEq, Repr

namespace Banner

def rule : Text := List.replicate 72 '*'

def netlist : Banner :=
  let title := "* CDL netlist".toList
  ⟨[[], rule, title, rule], title⟩

def generator (name : Text) : Banner :=
  let title := "* Generated by ".toList ++ name
  ⟨[rule, title, [], "* CDL parameter".toList, rule], title⟩

/-- The generator that a banner names unless told otherwise. -/
def defaultGenerator : Text := "cdl-fixer".toList

def ofName (name generatorName : Text) : Except Fault Banner :=
  if name = "netlist".toList then .ok netlist
  else if name = "generator".toList then .ok (generator generatorName)
  else .error (.unknownBanner name)

end Banner

namespace Netlist

/-- Puts the default lines of missing sections in front and tells which, in the order of the
sections. -/
def ensureSections : List Section → Netlist → Edited (List Text)
  | [], n => (n, .ok [])
  | s :: rest, n =>
    if s.isIn n then ensureSections rest n
    else match Line.ofText s.defaultLine with
      | .error fault => (n, .error fault)
      | .ok l =>
        let r := ensureSections rest (n.prepend l)
        (r.1, r.2.map (s.defaultLine :: ·))

/-- Puts a banner in front unless its marker is a line already; tells whether it did. -/
def prependBanner (b : Banner) (n : Netlist) : Edited Bool :=
  if b.marker ∈ n.texts then (n, .ok false)
  else match b.lines.mapM Line.ofText with
    | .error fault => (n, .error fault)
    | .ok lines => (n.prependBlock lines, .ok true)

end Netlist

end NetlistPrep
