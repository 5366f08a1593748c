import NetlistPrep.Request
import NetlistPrep.Settings

/-!
# The whole run

A whole run makes the passes that its settings ask for, in a fixed order: the netlist banner, the
section defaults, the generator banner, the case of keys, the geometry, and pin information where
cells are given. Each pass works on what the one before it left.

* `Pipeline.passes` are the passes of a run.
* `Pipeline.run` makes them and sums up their accounts; `Pipeline.runRequest` takes its netlist and
  cells from a request, and `Pipeline.fixText` is the run from text to text.
-/

namespace NetlistPrep.Pipeline

/-- The passes that settings ask for, in order. -/
def passes (s : Settings) (cells : Option CellTable) : List Pass :=
  (if s.header then [.banner .netlist] else [])
    ++ (if s.sectionDefaults then [.sectionDefaults Section.standard] else [])
    ++ (if s.header then [.banner (.generator s.generatorName)] else [])
    ++ (if s.caseConversion then [.keyCase KeyCase.standard] else [])
    ++ (if s.geometry then [.geometry] else [])
    ++ (cells.map Pass.pinInfo).toList

/-- Runs passes one after the other and keeps their reports with the stages they ran at. -/
def runPasses (n : Netlist) : List Pass → Except Fault (Netlist × List (Text × Report))
  | [] => .ok (n, [])
  | p :: rest => do
    let report ← p.run n
    let (final, reports) ← runPasses report.netlist rest
    return (final, (p.stage, report) :: reports)

structure Result where
  netlist : Netlist
  text : Text
  reports : List Report
  provenance : Provenance
  warnings : List Text
  records : List Record
deriving DecidableEq, Repr

def operator : Text := "cdl_fix".toList

def source : Text := "cdl_fixer.operators.netlist.fix_cdl".toList

/-- The records of one stage: those of its pass and one that sums it up. -/
def stageRecords (stage : Text × Report) : List Record :=
  stage.2.records
    ++ [⟨.debug, source, stage.1 ++ " pass: ".toList ++ stage.2.provenance.summary⟩]

/-- The account of a whole run; `text` is the text of the netlist, where it was given. -/
def provenance (s : Settings) (text : Option Text) (before after : Netlist)
    (reports : List Report) : Provenance where
  operator := operator
  version := Provenance.currentVersion
  inputs :=
    (Provenance.netlistKey, Fingerprint.ofLines before.texts)
      :: (text.map fun t => ("netlist_text".toList, Fingerprint.ofText t)).toList
      ++ [("config".toList, Fingerprint.ofJson s.toJson)]
  outputs :=
    [("fixed_text".toList, Fingerprint.ofText after.toText),
     (Provenance.netlistKey, Fingerprint.ofLines after.texts)]
  linesIn := before.size
  linesOut := after.size
  inserted := reports.foldl (fun total r => total + r.provenance.inserted) 0
  rewritten := reports.foldl (fun total r => total + r.provenance.rewritten) 0

def run (s : Settings) (text : Option Text) (cells : Option CellTable) (n : Netlist) :
    Except Fault Result := do
  let (final, stages) ← runPasses n (passes s cells)
  let reports := stages.map (·.2)
  return {
    netlist := final
    text := final.toText
    reports
    provenance := provenance s text n final reports
    warnings := reports.flatMap (·.warnings)
    records := stages.flatMap stageRecords }

/-- The cells for a whole run: those given, or those of the descriptor that the settings name. -/
def cellsFor (tree : FileTree) (s : Settings) (given : Option CellTable) :
    Except Fault (Option Descriptor.Loaded) :=
  match given, s.descriptor with
  | some cells, _ => .ok (some { cells })
  | none, some p => return some (← Descriptor.load tree p.text p)
  | none, none => .ok none

/-- Makes the whole run that a request asks for. -/
def runRequest (tree : FileTree) (s : Settings) (r : Request) : Except Fault Result := do
  let n ← r.getNetlist
  let loaded ← cellsFor tree s (← r.getCells?)
  let text := match r.netlistText with
    | .str t => some t
    | _ => none
  let result ← run s text (loaded.map (·.cells)) n
  return { result with records := (loaded.map (·.records)).getD [] ++ result.records }

/-- The run from text to text. -/
def fixText (tree : FileTree) (s : Settings) (cells : Option CellTable) (t : Text) :
    Except Fault Text :=
  return (← runRequest tree s (.ofText t cells)).text

end NetlistPrep.Pipeline
