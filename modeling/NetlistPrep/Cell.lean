import NetlistPrep.Text.Blank
import NetlistPrep.Text.Letter

/-!
# Cells and their ports

A cell is a named block with ports in order; every port has a direction. A `CellTable` keeps cells
under distinct keys in the order in which the keys came.
-/

namespace NetlistPrep

inductive Direction
  | input
  | output
  | inout
deriving DecidableEq, Repr

namespace Direction

def word : Direction → Text
  | .input => "in".toList
  | .output => "out".toList
  | .inout => "inout".toList

/-- The letter for a direction on pin-info lines. -/
def code : Direction → Char
  | .input => 'I'
  | .output => 'O'
  | .inout => 'B'

/-- The direction that a text describes: its first letter decides, unless it is the word for both.
-/
def ofText (t : Text) : Direction :=
  let word := Text.lower (Text.trim t)
  if word = inout.word then .inout
  else match word.head? with
    | some 'i' => .input
    | some 'o' => .output
    | _ => .inout

end Direction

/-- A port of a cell. -/
structure Port where
  name : Text
  direction : Direction := .inout
deriving DecidableEq, Repr

/-- A named block with its ports in order. -/
structure Cell where
  name : Text
  ports : List Port := []
deriving DecidableEq, Repr

def Cell.port? (c : Cell) (name : Text) : Option Port := c.ports.find? (·.name = name)

/-- Cells under distinct keys, in the order in which the keys came. -/
structure CellTable where
  entries : List (Text × Cell)
  keys_nodup : (entries.map (·.1)).Nodup
deriving DecidableEq, Repr

namespace CellTable

def empty : CellTable := ⟨[], by simp⟩

def keys (t : CellTable) : List Text := t.entries.map (·.1)

def size (t : CellTable) : Nat := t.entries.length

def get? (t : CellTable) (key : Text) : Option Cell := t.entries.lookup key

/-- The entries with another cell under a key. -/
def replaceEntry (key : Text) (c : Cell) (entries : List (Text × Cell)) : List (Text × Cell) :=
  entries.map fun e => if e.1 = key then (key, c) else e

theorem map_fst_replaceEntry (key : Text) (c : Cell) (entries : List (Text × Cell)) :
    (replaceEntry key c entries).map (·.1) = entries.map (·.1) := by
  simp only [replaceEntry, List.map_map]
  refine List.map_congr_left fun e _ => ?_
  by_cases h : e.1 = key <;> simp [h]

/-- Puts a cell under a key: in the place of the cell that is there, or at the end. -/
def insert (t : CellTable) (key : Text) (c : Cell) : CellTable :=
  if h : key ∈ t.keys then
    ⟨replaceEntry key c t.entries, by rw [map_fst_replaceEntry]; exact t.keys_nodup⟩
  else
    ⟨t.entries ++ [(key, c)], by
      simp only [List.map_append, List.map_cons, List.map_nil]
      refine List.nodup_append.2 ⟨t.keys_nodup, by simp, ?_⟩
      rintro a ha b hb rfl
      exact h (by simpa using (List.mem_singleton.1 hb) ▸ ha)⟩

/-- The table of entries; of two entries with one key the later one counts. -/
def ofList (entries : List (Text × Cell)) : CellTable :=
  entries.foldl (fun t e => t.insert e.1 e.2) empty

end CellTable

end NetlistPrep
