import NetlistPrep.Fault
import NetlistPrep.Path
import NetlistPrep.Text.Lines
import NetlistPrep.Text.Utf8

/-!
# Files

A tree of files and directories with a working directory, as far as reading and writing whole files
needs it. A path is walked name by name from the working directory or from the root; the first name
that cannot be walked decides the obstacle.

Only the shape of a tree and the lengths of names keep a file from being opened. There are no
permissions, and a file that was opened is read or written as a whole. What else a real file system
refuses is an obstacle with its own number and wording (`Obstacle.other`), which no tree gives.

* `FileTree.locate` walks a path.
* `FileTree.read` and `FileTree.write` take and put the content of a file.
* `Obstacle.message` is the wording of an obstacle.
-/

namespace NetlistPrep

/-- What keeps a file from being opened. -/
inductive Obstacle
  | missing
  | notDirectory
  | isDirectory
  | nameTooLong
  /-- An obstacle that only a real file system has, such as a missing permission. -/
  | other (number : Nat) (wording : Text)
deriving DecidableEq, Repr

namespace Obstacle

def number : Obstacle → Nat
  | .missing => 2
  | .notDirectory => 20
  | .isDirectory => 21
  | .nameTooLong => 36
  | .other number _ => number

def wording : Obstacle → Text
  | .missing => "No such file or directory".toList
  | .notDirectory => "Not a directory".toList
  | .isDirectory => "Is a directory".toList
  | .nameTooLong => "File name too long".toList
  | .other _ wording => wording

/-- Says what keeps the file of a path from being opened. -/
def message (o : Obstacle) (p : Path) : Text :=
  "[Errno ".toList ++ Text.ofNat o.number ++ "] ".toList ++ o.wording ++ ": ".toList
    ++ Text.quoted p.text

end Obstacle

inductive Node
  | file (content : Octets)
  | directory
deriving DecidableEq, Repr

/-- The names that lead from the root to a thing. -/
abbrev Place := List Text

/-- Files and directories by their places, and the place of the working directory. The root is there
without being listed. -/
structure FileTree where
  home : Place
  nodes : List (Place × Node)
deriving DecidableEq, Repr

namespace FileTree

def node? (t : FileTree) (place : Place) : Option Node :=
  if place = [] then some .directory else t.nodes.lookup place

def content? (t : FileTree) (place : Place) : Option Octets :=
  match t.node? place with
  | some (.file content) => some content
  | _ => none

def put (place : Place) (node : Node) (t : FileTree) : FileTree :=
  { t with nodes := (place, node) :: t.nodes.filter fun e => e.1 ≠ place }

/-- Makes the directories that lead to a place, and one there. -/
def makeDirectory (place : Place) (t : FileTree) : FileTree :=
  (List.range place.length).foldl (fun t k => t.put (place.take (k + 1)) .directory) t

/-- A tree with nothing in it but its working directory. -/
def empty (home : Place) : FileTree := makeDirectory home ⟨home, []⟩

/-- Puts a file at a place and makes the directories that lead there. -/
def addFile (place : Place) (content : Octets) (t : FileTree) : FileTree :=
  (t.makeDirectory place.dropLast).put place (.file content)

/-- The files below the working directory with the ways there. -/
def files (t : FileTree) : List (List Text × Octets) :=
  t.nodes.filterMap fun e =>
    match e.2 with
    | .file content =>
      if t.home.isPrefixOf e.1 then some (e.1.drop t.home.length, content) else none
    | .directory => none

/-! ## Walking -/

def nameLimit : Nat := 255

def pathLimit : Nat := 4095

/-- The place where one name leads from a directory, and what stands there. -/
def step (t : FileTree) (place : Place) (name : Text) : Except Obstacle (Place × Option Node) :=
  if name = ['.', '.'] then .ok (place.dropLast, some .directory)
  else if nameLimit < (Utf8.encode name).length then .error .nameTooLong
  else .ok (place ++ [name], t.node? (place ++ [name]))

/-- Walks names from a directory. All but the last have to lead to directories. -/
def walk (t : FileTree) (place : Place) : List Text → Except Obstacle (Place × Option Node)
  | [] => .ok (place, some .directory)
  | name :: rest =>
    match t.step place name with
    | .error o => .error o
    | .ok (next, node) =>
      if rest = [] then .ok (next, node)
      else match node with
        | some .directory => t.walk next rest
        | some (.file _) => .error .notDirectory
        | none => .error .missing

/-- The place where a path leads, and what stands there. -/
def locate (t : FileTree) (p : Path) : Except Obstacle (Place × Option Node) :=
  if pathLimit < (Utf8.encode p.text).length then .error .nameTooLong
  else t.walk (if p.anchor = .relative then t.home else []) p.names

/-! ## Reading and writing -/

def read (t : FileTree) (p : Path) : Except Obstacle Octets :=
  match t.locate p with
  | .error o => .error o
  | .ok (_, some (.file content)) => .ok content
  | .ok (_, some .directory) => .error .isDirectory
  | .ok (_, none) => .error .missing

/-- The tree with other content in a file, which need not be there before. -/
def write (t : FileTree) (p : Path) (content : Octets) : Except Obstacle FileTree :=
  match t.locate p with
  | .error o => .error o
  | .ok (_, some .directory) => .error .isDirectory
  | .ok (place, _) => .ok (t.put place (.file content))

end FileTree

/-! ## Texts in files -/

namespace TextFile

/-- The text of octets that were read, every line end made a line feed. `shown` is the name of their
source in faults. -/
def decode (shown : Text) (octets : Octets) : Except Fault Text :=
  match Utf8.decode octets with
  | .ok text => .ok (Text.unifyLineEnds text)
  | .error refusal => .error (.unavailable shown (some refusal.message.toList))

/-- The text of a file, from what opening it gave. -/
def ofRead (shown : Text) (p : Path) : Except Obstacle Octets → Except Fault Text
  | .ok octets => decode shown octets
  | .error o => .error (.unavailable shown (some (o.message p)))

def openable (p : Path) : Except Fault Path :=
  if '\x00' ∈ p.text then .error .nulInPath else .ok p

/-- The text of a file in a tree. -/
def read (t : FileTree) (shown : Text) (p : Path) : Except Fault Text := do
  let p ← openable p
  ofRead shown p (t.read p)

/-- The tree with a text written to a file. -/
def write (t : FileTree) (shown : Text) (p : Path) (text : Text) : Except Fault FileTree := do
  let p ← openable p
  match t.write p (Utf8.encode text) with
  | .ok written => return written
  | .error o => throw (.unavailable shown (some (o.message p)))

end TextFile

end NetlistPrep
