import NetlistPrep.Cell
import NetlistPrep.Log
import NetlistPrep.Text.Lines
import NetlistPrep.Text.Quoted

/-!
# Cell descriptors

A descriptor lists cells and their ports by indentation:

    inv:
        A:
          direction: in
        Y:
          direction: out

* `Descriptor.Entry.ofText` tells what one line is: a cell without indentation, a port four blanks
  in, a direction six blanks in; anything else is left out.
* `Descriptor.Reader` takes entries one by one. The first block of a name gives the cell and the
  first port of a name the port; a repeated port closes the one before it.
* `Descriptor.parse` reads a whole text.
-/

namespace NetlistPrep.Descriptor

/-- What a line of a descriptor is. -/
inductive Entry
  /-- A line without content, or a comment. -/
  | blank
  | cell (name : Text)
  | port (name : Text)
  | direction (d : Direction)
  | stray (line : Text)
deriving DecidableEq, Repr

def directionKey : Text := "direction:".toList

/-- A line without the line ends behind it. -/
def withoutEnd (line : Text) : Text := Text.dropEnd (fun c => c == '\r' || c == '\n') line

/-- Tells what a line is from its indentation and its content. -/
def Entry.ofText (raw : Text) : Entry :=
  let line := withoutEnd raw
  let body := Text.dropBlanks line
  if body = [] ∨ body.head? = some '#' then .blank
  else match line.length - body.length with
    | 0 => .cell (Text.trim (Text.before ':' body))
    | 4 => .port (Text.before ':' ((Text.words body).headD []))
    | 6 => match Text.after? directionKey body with
      | some value => .direction (Direction.ofText value)
      | none => .stray line
    | _ => .stray line

inductive Note
  | repeatedCell (name : Text)
  | portOutside (name : Text)
  | repeatedPort (name cell : Text)
  | stray (line : Text)
deriving DecidableEq, Repr

namespace Note

def message (number : Int) : Note → Text
  | .repeatedCell name =>
    "line ".toList ++ Text.ofInt number ++ ": duplicate module '".toList ++ name
      ++ "' ignored".toList
  | .portOutside name =>
    "line ".toList ++ Text.ofInt number ++ ": port '".toList ++ name
      ++ "' outside of any module".toList
  | .repeatedPort name cell =>
    "line ".toList ++ Text.ofInt number ++ ": duplicate port '".toList ++ name
      ++ "' in module '".toList ++ cell ++ "' ignored".toList
  | .stray line =>
    "descriptor line ".toList ++ Text.ofInt number ++ " ignored: ".toList ++ Text.quoted line

/-- Stray lines are of interest only when looking for faults. -/
def level : Note → Level
  | .stray _ => .debug
  | _ => .warning

end Note

def source : Text := "cdl_fixer.domain.cdl.modules".toList

structure Remark where
  number : Int
  note : Note
deriving DecidableEq, Repr

def Remark.record (r : Remark) : Record := ⟨r.note.level, source, r.note.message r.number⟩

/-- The cell that is being read: its ports so far, the last of them apart while directions may
follow it. Only a counted cell is part of the result. -/
structure Block where
  name : Text
  closed : List Port := []
  port : Option Port := none
  counted : Bool
deriving DecidableEq, Repr

/-- The cell of a block as far as it is read. -/
def Block.cell (b : Block) : Cell := ⟨b.name, b.closed ++ b.port.toList⟩

/-- A reader of a descriptor: the cells of the blocks before, the block at hand, and what was
noticed. -/
structure Reader where
  before : CellTable := .empty
  block : Option Block := none
  remarks : List Remark := []
deriving DecidableEq, Repr

namespace Reader

/-- The cells that were read, the one at hand included. -/
def table (r : Reader) : CellTable :=
  match r.block with
  | some b => if b.counted then r.before.insert b.name b.cell else r.before
  | none => r.before

def remark (number : Int) (note : Note) (r : Reader) : Reader :=
  { r with remarks := r.remarks ++ [⟨number, note⟩] }

/-- Begins the block of a cell. A repeated name begins a block that does not count. -/
def beginCell (number : Int) (name : Text) (r : Reader) : Reader :=
  let fresh := !r.table.keys.contains name
  let begun : Reader := { r with before := r.table, block := some { name, counted := fresh } }
  if fresh then begun else begun.remark number (.repeatedCell name)

/-- Adds a port to the block at hand. A repeated name adds none and closes the port before it. -/
def addPort (number : Int) (name : Text) (r : Reader) : Reader :=
  match r.block with
  | none => r.remark number (.portOutside name)
  | some b =>
    let closed := b.cell.ports
    if (b.cell.port? name).isSome then
      { r with block := some { b with closed, port := none } }.remark number
        (.repeatedPort name b.name)
    else { r with block := some { b with closed, port := some { name } } }

/-- Gives the port at hand a direction. -/
def setDirection (d : Direction) (r : Reader) : Reader :=
  { r with block := r.block.map fun b =>
      { b with port := b.port.map fun p => { p with direction := d } } }

def take (number : Int) (r : Reader) : Entry → Reader
  | .blank => r
  | .cell name => r.beginCell number name
  | .port name => r.addPort number name
  | .direction d => r.setDirection d
  | .stray line => r.remark number (.stray line)

def feed (r : Reader) (number : Int) (line : Text) : Reader := r.take number (Entry.ofText line)

/-- Takes lines one by one; the first of them has the number given. -/
def feedAll (r : Reader) (number : Int) : List Text → Reader
  | [] => r
  | line :: rest => (r.feed number line).feedAll (number + 1) rest

def warnings (r : Reader) : List Text :=
  (r.remarks.filter fun x => x.note.level = .warning).map fun x => x.note.message x.number

end Reader

/-- A reader that has taken all lines of a text. -/
def read (t : Text) : Reader := Reader.feedAll {} 1 (Text.lines t)

/-- The cells that a descriptor lists. -/
def parse (t : Text) : CellTable := (read t).table

end NetlistPrep.Descriptor
