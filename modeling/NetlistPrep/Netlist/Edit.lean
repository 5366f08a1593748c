import NetlistPrep.Netlist

/-!
# Edits

An edit asks for one change of a netlist and brings its lines as plain data. `Edit.apply` answers
with the changed netlist or with a fault; a fault leaves nothing changed because there is no netlist
in it.
-/

namespace NetlistPrep

/-- A change of a netlist in one place. -/
inductive Edit
  | prepend (line : Json)
  | prependBlock (block : List Json)
  | replace (index : Int) (line : Json)
  | insertAfter (index : Int) (line : Json)

namespace Edit

/-- Carries out an edit. To replace, the line is looked at before the index; to insert, the index
before the line. -/
def apply (n : Netlist) : Edit → Except Fault Netlist
  | prepend line => return n.prepend (← Line.ofJson line)
  | prependBlock block => return n.prependBlock (← block.mapM Line.ofJson)
  | replace index line => do
    let l ← Line.ofJson line
    match n.position? index with
    | some p => return n.replace p l
    | none => throw .noSuchLine
  | insertAfter index line =>
    match n.position? index with
    | some p => return n.insertAfter p (← Line.ofJson line)
    | none => throw (.outOfRange index)

end Edit

end NetlistPrep
