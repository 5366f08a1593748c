import NetlistPrep.Cell
import NetlistPrep.Log
import NetlistPrep.Netlist.Rewrite

/-!
# Pin information

Behind the declaration of a cell stands a line that lists its ports with their directions.
`Netlist.mergePinInfo` writes that line for every declared cell that a table knows with ports: in
the place of such a line where one follows the declaration already, and otherwise as a line of its
own.
-/

namespace NetlistPrep

namespace PinInfo

def declarationWord : Text := ".SUBCKT".toList

/-- What a pin-info line begins with. -/
def marker : Text := "*.PININFO".toList

/-- The name of the cell that a line declares. -/
def declared? (line : Text) : Option Text :=
  match Text.words line with
  | word :: name :: _ => if word = declarationWord then some name else none
  | _ => none

/-- A port with the letter of its direction. -/
def token (p : Port) : Text := p.name ++ [':', p.direction.code]

def line (c : Cell) : Text := [' '].intercalate (marker :: c.ports.map token)

def isPinInfo (l : Line) : Bool := marker.isPrefixOf l.text

/-- What a merge did: how many pin-info lines it put in and how many it replaced, and the declared
names that the table does not know. -/
structure Stats where
  inserted : Nat := 0
  replaced : Nat := 0
  unmatched : List Text := []
deriving DecidableEq, Repr

def source : Text := "cdl_fixer.domain.cdl.pininfo".toList

/-- The records of a merge: one for each name that the table does not know. -/
def Stats.records (s : Stats) : List Record :=
  s.unmatched.map fun name => ⟨.debug, source, "no descriptor for subckt ".toList ++ name⟩

/-- What a table makes of a line: nothing, a name it does not know, or the pin-info line to write
behind it. -/
inductive Match
  | nothing
  | unknown (name : Text)
  | known (info : Text)
deriving DecidableEq, Repr

def lookUp (t : CellTable) (text : Text) : Match :=
  match declared? text with
  | none => .nothing
  | some name =>
    match t.get? name with
    | none => .unknown name
    | some c => if c.ports = [] then .nothing else .known (line c)

end PinInfo

namespace Netlist

open PinInfo

/-- Writes pin-info lines behind the declarations from a position on, up to the first that is no
line, and goes on counting. The walk steps over the line that it wrote. -/
def mergeFrom (t : CellTable) (i : Nat) (s : Stats) (n : Netlist) : Edited Stats :=
  match _ : n.lines[i]? with
  | none => (n, .ok s)
  | some l =>
    match lookUp t l.text with
    | .nothing => n.mergeFrom t (i + 1) s
    | .unknown name => n.mergeFrom t (i + 1) { s with unmatched := s.unmatched ++ [name] }
    | .known text =>
      match Line.ofText text with
      | .error fault => (n, .error fault)
      | .ok info =>
        if n.lines[i + 1]?.any isPinInfo then
          (n.replace (i + 1) info).mergeFrom t (i + 2) { s with replaced := s.replaced + 1 }
        else
          (n.insertAfter i info).mergeFrom t (i + 2) { s with inserted := s.inserted + 1 }
termination_by n.size - i
decreasing_by
  all_goals have hi : i < n.size := (List.getElem?_eq_some_iff.1 ‹n.lines[i]? = some _›).1
  · omega
  · omega
  · rw [size_replace]
    omega
  · rw [size_insertAfter]
    omega

/-- Writes the pin-info lines that a table gives. -/
def mergePinInfo (t : CellTable) (n : Netlist) : Edited Stats := n.mergeFrom t 0 {}

end Netlist

end NetlistPrep
