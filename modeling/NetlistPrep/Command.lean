import NetlistPrep.Netlist.Edit
import NetlistPrep.Pass

/-!
# Commands

Every way to change a netlist: an edit in one place, or the work of a pass. A command always leaves
a netlist behind, also where it fails: an edit that fails leaves the netlist as it was, and a pass
leaves it as far as it got.
-/

namespace NetlistPrep

inductive Command
  | edit (e : Edit)
  | pass (p : Pass)

namespace Command

/-- Carries out a command; a pass answers with what it found. -/
def run (n : Netlist) : Command → Edited (Option Finding)
  | .edit e =>
    match e.apply n with
    | .ok changed => (changed, .ok none)
    | .error fault => (n, .error fault)
  | .pass p =>
    let r := p.work n
    (r.1, r.2.map some)

/-- The netlist after commands one after the other, whatever they answer. -/
def runAll (n : Netlist) (commands : List Command) : Netlist :=
  commands.foldl (fun n c => (c.run n).1) n

end Command

end NetlistPrep
