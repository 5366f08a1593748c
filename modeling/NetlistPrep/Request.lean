import NetlistPrep.Descriptor.File
import NetlistPrep.Pass

/-!
# Requests

A request brings the things that a pass works on, each as what it should be or as plain data in its
place. A netlist goes before the text of one, and cells before a descriptor, whose text goes before
its path; `null` counts as not given.
-/

namespace NetlistPrep

/-- A thing as it is given: what it should be, or plain data. -/
inductive Given (α : Type)
  | proper (a : α)
  | plain (v : Json)

/-- The things that are given to a pass. -/
structure Request where
  netlist : Given Netlist := .plain .null
  netlistText : Json := .null
  cells : Given CellTable := .plain .null
  descriptorText : Json := .null
  descriptorPath : Json := .null

namespace Request

/-- The request that brings a netlist as a text, and cells where they are given. -/
def ofText (t : Text) (cells : Option CellTable) : Request where
  netlistText := .str t
  cells := match cells with
    | some table => .proper table
    | none => .plain .null

def getNetlist (r : Request) : Except Fault Netlist :=
  match r.netlist with
  | .proper n => .ok n
  | .plain .null =>
    match r.netlistText with
    | .str t => .ok (Netlist.ofText t)
    | _ => .error .noNetlistText
  | .plain _ => .error .notNetlist

/-- The cells that a request gives as such. Plain data can only be a table without entries. -/
def getCells? (r : Request) : Except Fault (Option CellTable) :=
  match r.cells with
  | .proper t => .ok (some t)
  | .plain .null => .ok none
  | .plain (.obj []) => .ok (some .empty)
  | .plain (.obj _) => .error .notCell
  | .plain _ => .error .notCellTable

def getCells (tree : FileTree) (r : Request) : Except Fault Descriptor.Loaded := do
  match ← r.getCells? with
  | some cells => return { cells }
  | none =>
    match r.descriptorText, r.descriptorPath with
    | .str t, _ => return { cells := Descriptor.parse t }
    | .null, .str path => Descriptor.load tree path (Path.ofText path)
    | .null, _ => throw .noDescriptor
    | _, _ => throw .descriptorKind

/-- Runs a pass that needs only a netlist. -/
def run (p : Pass) (r : Request) : Except Fault Report := do
  p.run (← r.getNetlist)

/-- Runs the pass that merges pin information. -/
def runPinInfo (tree : FileTree) (r : Request) : Except Fault Report := do
  let n ← r.getNetlist
  let loaded ← r.getCells tree
  let report ← (Pass.pinInfo loaded.cells).run n
  return { report with records := loaded.records ++ report.records }

end Request

end NetlistPrep
