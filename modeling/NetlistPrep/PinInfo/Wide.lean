import NetlistPrep.Pass

/-!
# Cells with wide names

Cells as far as a merge of pin information looks at them, the keys of a table and the ports under
them, with names that may hold surrogates.

* `WideTable.canonical` is the canonical text of such a table, of which its fingerprint is taken.
* `WideTable.standIn` is the table with which such cells are merged, into lines that have stand-ins
  for their surrogates, too.
-/

namespace NetlistPrep

structure WidePort where
  name : WideText
  direction : Direction
deriving DecidableEq, Repr

namespace WidePort

/-- A port with the letter of its direction. -/
def token (p : WidePort) : WideText := p.name ++ WideText.ofText [':', p.direction.code]

def ofPort (p : Port) : WidePort := ⟨WideText.ofText p.name, p.direction⟩

def standIn (p : WidePort) : Port := ⟨WideText.standIn p.name, p.direction⟩

end WidePort

/-- The ports of cells under distinct keys, in the order in which the keys came. -/
structure WideTable where
  rows : List (WideText × List WidePort)
  keys_nodup : (rows.map (·.1)).Nodup
deriving DecidableEq, Repr

namespace WideTable

def ofCells (t : CellTable) : WideTable where
  rows := t.entries.map fun e => (WideText.ofText e.1, e.2.ports.map .ofPort)
  keys_nodup := by
    have hkeys := t.keys_nodup
    rw [List.Nodup, List.pairwise_map] at hkeys ⊢
    rw [List.pairwise_map]
    exact hkeys.imp fun h he => h (WideText.ofText_inj.1 he)

/-- The table with stand-ins for the surrogates in its names. -/
def standIn (t : WideTable) : CellTable where
  entries := t.rows.map fun row =>
    (WideText.standIn row.1, ⟨WideText.standIn row.1, row.2.map (·.standIn)⟩)
  keys_nodup := by
    have hkeys := t.keys_nodup
    rw [List.Nodup, List.pairwise_map] at hkeys ⊢
    rw [List.pairwise_map]
    exact hkeys.imp fun h he => h (WideText.standIn_inj.1 he)

/-- In no name of the table the two halves of a pair stand side by side. -/
def unpaired (t : WideTable) : Bool :=
  t.rows.all fun row => WideText.unpaired row.1 && row.2.all fun p => WideText.unpaired p.name

/-- The ports under a key as they are fingerprinted, by their tokens. -/
def portsText (ports : List WidePort) : Text :=
  '[' :: [','].intercalate (ports.map fun p => Json.wideString p.token) ++ [']']

def rowText (row : WideText × List WidePort) : Text :=
  Json.wideString row.1 ++ ':' :: portsText row.2

/-- The canonical text of a table: its rows in the order of their keys. -/
def canonical (t : WideTable) : Text :=
  '\x7b' :: [','].intercalate
    ((t.rows.mergeSort fun a b => WideText.le a.1 b.1).map rowText) ++ ['\x7d']

end WideTable

end NetlistPrep
