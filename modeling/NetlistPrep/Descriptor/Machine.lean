import NetlistPrep.Descriptor

/-!
# Reading with variables

A machine reads a descriptor as a reader does, but keeps its place in variables: a word for where it
stands, the number of the cell at hand, and the place of the port at hand. Every cell that was begun
stays under its number, and the table gives names to the numbers of those that count. Nothing but
the order of the assignments makes the variables agree with each other.
-/

namespace NetlistPrep.Descriptor

/-- Where a machine stands. -/
inductive Standing
  | topLevel
  | inCell
  | inPort
deriving DecidableEq, Repr

structure Machine where
  /-- All cells that were begun; a cell is known by its place here. -/
  cells : List Cell := []
  table : List (Text × Nat) := []
  standing : Standing := .topLevel
  cell : Option Nat := none
  /-- The number of a cell and the place of one of its ports. -/
  port : Option (Nat × Nat) := none
  remarks : List Remark := []
deriving DecidableEq, Repr

namespace Machine

/-- The cells that a table gives names to, under these names. -/
def entriesOf (cells : List Cell) (table : List (Text × Nat)) : List (Text × Cell) :=
  table.filterMap fun e => (cells[e.2]?).map fun c => (e.1, c)

def entries (m : Machine) : List (Text × Cell) := entriesOf m.cells m.table

/-- The cell at hand. -/
def cell? (m : Machine) : Option Cell := m.cell.bind fun i => m.cells[i]?

/-- The port at hand. -/
def port? (m : Machine) : Option Port :=
  m.port.bind fun place => (m.cells[place.1]?).bind fun c => c.ports[place.2]?

def remark (number : Int) (note : Note) (m : Machine) : Machine :=
  { m with remarks := m.remarks ++ [⟨number, note⟩] }

/-- Begins a cell, which is the cell at hand also where its name was given before. -/
def beginCell (number : Int) (name : Text) (m : Machine) : Machine :=
  let entered : Machine :=
    if name ∈ m.table.map (·.1) then m.remark number (.repeatedCell name)
    else { m with table := m.table ++ [(name, m.cells.length)] }
  { entered with
    cells := m.cells ++ [{ name }], cell := some m.cells.length, port := none, standing := .inCell }

/-- Adds a port to the cell at hand, unless that has one of the name. -/
def addPort (number : Int) (name : Text) (m : Machine) : Machine :=
  if m.standing = .topLevel then m.remark number (.portOutside name)
  else match m.cell with
    | none => m.remark number (.portOutside name)
    | some i => match m.cells[i]? with
      | none => m
      | some c =>
        if (c.port? name).isSome then
          { m.remark number (.repeatedPort name c.name) with port := none, standing := .inCell }
        else
          { m with
            cells := m.cells.set i { c with ports := c.ports ++ [{ name }] },
            port := some (i, c.ports.length), standing := .inPort }

/-- Gives the port at hand a direction. -/
def setDirection (d : Direction) (m : Machine) : Machine :=
  if m.standing = .inPort then
    match m.port with
    | none => m
    | some (i, k) =>
      { m with cells := m.cells.modify i fun c =>
          { c with ports := c.ports.modify k fun p => { p with direction := d } } }
  else m

def take (number : Int) (m : Machine) : Entry → Machine
  | .blank => m
  | .cell name => m.beginCell number name
  | .port name => m.addPort number name
  | .direction d => m.setDirection d
  | .stray line => m.remark number (.stray line)

def feed (m : Machine) (number : Int) (line : Text) : Machine :=
  m.take number (Entry.ofText line)

/-- A machine that has taken lines, each with its number. -/
def run (feeds : List (Int × Text)) : Machine := feeds.foldl (fun m x => m.feed x.1 x.2) {}

end Machine

end NetlistPrep.Descriptor
