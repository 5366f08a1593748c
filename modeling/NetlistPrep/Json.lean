import NetlistPrep.Decimal.Style
import NetlistPrep.Text.Wide

/-!
# JSON values

Plain data as it comes from outside and as it is fingerprinted. `canonical` is the one text of a
value: no spaces, members in the order of their keys, ASCII only with `\u` escapes of UTF-16 units
for everything else.
-/

namespace NetlistPrep

/-- A JSON value; numbers keep apart whether they were written as integers. -/
inductive Json
  | null
  | bool (b : Bool)
  | int (n : Int)
  | float (x : Float)
  | str (s : Text)
  | arr (items : List Json)
  | obj (members : List (Text × Json))
deriving Inhabited

namespace Json

def kind : Json → String
  | .null => "NoneType"
  | .bool _ => "bool"
  | .int _ => "int"
  | .float _ => "float"
  | .str _ => "str"
  | .arr _ => "list"
  | .obj _ => "dict"

/-- One UTF-16 unit as it is written in a string: as it is, by a letter, or by its number. -/
def escape (u : UInt16) : Text :=
  let c := Char.ofNat u.toNat
  if c = '"' ∨ c = '\\' then ['\\', c]
  else if c = '\n' then ['\\', 'n']
  else if c = '\r' then ['\\', 'r']
  else if c = '\t' then ['\\', 't']
  else if c = '\x0c' then ['\\', 'f']
  else if c = '\x08' then ['\\', 'b']
  else if 0x20 ≤ u.toNat ∧ u.toNat ≤ 0x7E then [c]
  else '\\' :: 'u' :: Text.hex 4 u.toNat

/-- A string that may hold surrogates, as it is written. -/
def wideString (w : WideText) : Text := '"' :: w.flatMap (·.units.flatMap escape) ++ ['"']

def string (s : Text) : Text := wideString (WideText.ofText s)

/-- A key and its value, both already written. -/
def member (m : Text × Text) : Text := string m.1 ++ ':' :: m.2

mutual

def canonical : Json → Text
  | .null => "null".toList
  | .bool true => "true".toList
  | .bool false => "false".toList
  | .int n => Text.ofInt n
  | .float x => Decimal.shortest x
  | .str s => string s
  | .arr items => '[' :: [','].intercalate (canonicalItems items) ++ [']']
  | .obj members =>
    let written := (canonicalMembers members).mergeSort fun a b => Text.le a.1 b.1
    '\x7b' :: [','].intercalate (written.map member) ++ ['\x7d']

def canonicalItems : List Json → List Text
  | [] => []
  | v :: rest => canonical v :: canonicalItems rest

/-- The keys of members with the canonical texts of their values. -/
def canonicalMembers : List (Text × Json) → List (Text × Text)
  | [] => []
  | (k, v) :: rest => (k, canonical v) :: canonicalMembers rest

end

end Json

end NetlistPrep
