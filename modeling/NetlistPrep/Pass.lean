import NetlistPrep.KeyCase
import NetlistPrep.PinInfo
import NetlistPrep.Preamble
import NetlistPrep.Provenance
import NetlistPrep.Recovery

/-!
# Passes

A pass takes a netlist to a netlist and accounts for it.

* `Pass.work` is what a pass does to the lines, with what it found.
* `Pass.run` adds the account: fingerprints, line counts, warnings and records.
-/

namespace NetlistPrep

inductive Pass
  | sectionDefaults (sections : List Section)
  | banner (b : Banner)
  | keyCase (replacements : List KeyCase.Replacement)
  | geometry
  | pinInfo (cells : CellTable)

inductive Finding
  /-- The default lines that were put in. -/
  | sections (inserted : List Text)
  | banner (added : Bool)
  /-- How many lines have other keys. -/
  | keyCase (changed : Nat)
  /-- How many lines have more geometry. -/
  | geometry (augmented : Nat)
  /-- What the merge of pin information did. -/
  | pinInfo (stats : PinInfo.Stats)
deriving DecidableEq, Repr

structure Report where
  netlist : Netlist
  finding : Finding
  provenance : Provenance
  warnings : List Text
  records : List Record
deriving DecidableEq, Repr

/-- Recovers the geometry of every line and counts the lines that changed. -/
def Netlist.recoverGeometry (n : Netlist) : Edited Nat :=
  n.rewrite fun t => (Recovery.ofLine t).text

namespace Pass

def operator : Pass → Text
  | .sectionDefaults _ => "cdl_section_defaults".toList
  | .banner _ => "cdl_header_banner".toList
  | .keyCase _ => "cdl_case_normalize".toList
  | .geometry => "cdl_geometry_recovery".toList
  | .pinInfo _ => "cdl_pininfo_merge".toList

/-- The place of a pass in a whole run. -/
def stage : Pass → Text
  | .sectionDefaults _ => "section_defaults".toList
  | .banner _ => "header".toList
  | .keyCase _ => "case_conversion".toList
  | .geometry => "geometry".toList
  | .pinInfo _ => "pininfo".toList

/-- What a pass does to a netlist. -/
def work (n : Netlist) : Pass → Edited Finding
  | .sectionDefaults sections =>
    let r := Netlist.ensureSections sections n
    (r.1, r.2.map .sections)
  | .banner b =>
    let r := n.prependBanner b
    (r.1, r.2.map .banner)
  | .keyCase replacements =>
    let r := n.lowerKeys replacements
    (r.1, r.2.map .keyCase)
  | .geometry =>
    let r := n.recoverGeometry
    (r.1, r.2.map .geometry)
  | .pinInfo cells =>
    let r := n.mergePinInfo cells
    (r.1, r.2.map .pinInfo)

def inserted : Pass → Finding → Nat
  | .banner b, .banner added => if added then b.lines.length else 0
  | _, .sections lines => lines.length
  | _, .pinInfo stats => stats.inserted
  | _, _ => 0

def rewritten : Finding → Nat
  | .keyCase changed => changed
  | .geometry augmented => augmented
  | .pinInfo stats => stats.replaced
  | _ => 0

/-- The lines without a rectangle, by their numbers from one on. -/
def unsolved (n : Netlist) : List (Nat × Recovery × Unsolved) :=
  n.texts.zipIdx.filterMap fun x =>
    let recovery := Recovery.ofLine x.1
    recovery.unsolved.map fun u => (x.2 + 1, recovery, u)

def warnings (n : Netlist) : Pass → Finding → List Text
  | .geometry, _ => (unsolved n).map fun x =>
      "line ".toList ++ Text.ofNat x.1 ++ ": ".toList ++ x.2.2.message
  | .pinInfo _, .pinInfo stats => stats.unmatched.map fun name =>
      "no module description for subckt ".toList ++ name
  | _, _ => []

def geometrySource : Text := "cdl_fixer.domain.cdl.geometry".toList

def records (n : Netlist) : Pass → Finding → List Record
  | .geometry, _ => (unsolved n).map fun x =>
      ⟨.debug, geometrySource, "geometry skipped, no real root: ".toList ++ x.2.1.text⟩
  | .pinInfo _, .pinInfo stats => stats.records
  | _, _ => []

/-- Cells as they are fingerprinted: the tokens of their ports under their keys. -/
def cellsJson (cells : CellTable) : Json :=
  .obj (cells.entries.map fun e => (e.1, .arr (e.2.ports.map fun p => .str (PinInfo.token p))))

/-- The fingerprints of what goes into a pass. -/
def inputs (n : Netlist) (p : Pass) : List (Text × Fingerprint) :=
  (Provenance.netlistKey, Fingerprint.ofLines n.texts) ::
    match p with
    | .pinInfo cells => [("modules".toList, Fingerprint.ofJson (cellsJson cells))]
    | _ => []

/-- The account of a pass that took a netlist to another. -/
def provenance (p : Pass) (before after : Netlist) (f : Finding) : Provenance where
  operator := p.operator
  version := Provenance.currentVersion
  inputs := p.inputs before
  outputs := [(Provenance.netlistKey, Fingerprint.ofLines after.texts)]
  linesIn := before.size
  linesOut := after.size
  inserted := p.inserted f
  rewritten := rewritten f

def run (p : Pass) (n : Netlist) : Except Fault Report :=
  match p.work n with
  | (_, .error fault) => .error fault
  | (after, .ok finding) => .ok {
      netlist := after
      finding
      provenance := p.provenance n after finding
      warnings := p.warnings n finding
      records := p.records n finding }

end Pass

end NetlistPrep
