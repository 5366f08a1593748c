import NetlistPrep.Pipeline
import NetlistPrep.PinInfo.Wide

/-!
# The whole run over a wide text

To a pass a surrogate is a character like any other that is no blank, no digit, no letter and no
sign. So a netlist with surrogates goes through the passes with stand-ins for them, and so do the
names of cells and ports, which are looked up in it and written into it.

* `Pipeline.runWide` is the run that `Pipeline.run` is without surrogates, with what it says.
* `Pipeline.fixWide` is the run from text to text.
-/

namespace NetlistPrep

def CellTable.standIn (t : CellTable) : CellTable := (WideTable.ofCells t).standIn

/-- What is said about stand-ins, with the surrogates shown by their numbers. -/
def Record.ofStandIn (r : Record) : Record :=
  { r with message := WideText.shown (WideText.ofStandIn r.message) }

namespace Pipeline

/-- What a whole run over a wide text gives and says. -/
structure WideResult where
  text : WideText
  warnings : List Text
  records : List Record
deriving DecidableEq, Repr

def runWide (s : Settings) (w : WideText) (cells : Option CellTable) : Except Fault WideResult :=
  match WideText.toText? w with
  | some t => do
    let r ← run s (some t) cells (Netlist.ofText t)
    return ⟨WideText.ofText r.text, r.warnings, r.records⟩
  | none => do
    let t := WideText.standIn w
    let r ← run s (some t) (cells.map CellTable.standIn) (Netlist.ofText t)
    return ⟨WideText.ofStandIn r.text,
      r.warnings.map fun said => WideText.shown (WideText.ofStandIn said),
      r.records.map Record.ofStandIn⟩

def fixWide (tree : FileTree) (s : Settings) (cells : Option CellTable) (w : WideText) :
    Except Fault WideText :=
  match WideText.toText? w with
  | some t => do
    let fixed ← fixText tree s cells t
    return WideText.ofText fixed
  | none => do
    let loaded ← cellsFor tree s cells
    let fixed ← fixText tree s (loaded.map (·.cells.standIn)) (WideText.standIn w)
    return WideText.ofStandIn fixed

end Pipeline

end NetlistPrep
