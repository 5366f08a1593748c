import NetlistPrep.Descriptor
import NetlistPrep.FileTree

/-!
# Descriptor files

A descriptor that is read from a file, with what is recorded on the way.
-/

namespace NetlistPrep.Descriptor

/-- The cells of a descriptor and the records of reading it. -/
structure Loaded where
  cells : CellTable
  records : List Record := []

/-- Reads the text of a file; `shown` is the name of the file in records. -/
def ofFileText (shown : Text) (t : Text) : Loaded :=
  let r := read t
  let message :=
    "loaded ".toList ++ Text.ofNat r.table.size ++ " modules from ".toList ++ shown
  ⟨r.table, r.remarks.map Remark.record ++ [⟨.debug, source, message⟩]⟩

def load (tree : FileTree) (shown : Text) (p : Path) : Except Fault Loaded :=
  return ofFileText shown (← TextFile.read tree shown p)

end NetlistPrep.Descriptor
