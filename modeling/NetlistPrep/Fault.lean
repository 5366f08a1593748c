import NetlistPrep.Text.Quoted

/-!
# Faults

Every cause for which a request is refused. A fault is a cause with the data it needs; its class and
its wording are functions of it. Faults of use, such as an index where no line is, have no wording
of their own.
-/

namespace NetlistPrep

/-- Why a request is refused. -/
inductive Fault
  /-- A line was given that is no text but a value of another kind. -/
  | lineKind (kind : String)
  | lineFeed (line : Text)
  /-- There is no line to put another one after. -/
  | outOfRange (index : Int)
  | noSuchLine
  | zeroStep
  | notNetlist
  | noNetlistText
  | notCellTable
  /-- A table was given with an entry that is no cell. -/
  | notCell
  | descriptorKind
  | noDescriptor
  | unknownBanner (name : Text)
  | settingNotBoolean (key : Text)
  | settingNotPath
  /-- Something was given that cannot be made a path. -/
  | noPath
  /-- The generator name of settings is blank or no text. -/
  | generatorBlank
  | generatorLines
  | unknownSettings (keys : List Text)
  | unknownField
  | nulInPath
  /-- A file cannot be read or written, or holds no text. -/
  | unavailable (path : Text) (reason : Option Text)
deriving DecidableEq, Repr

namespace Fault

inductive Class
  | invalid
  | unavailable
  | range
  | kind
  | value
  | part
deriving DecidableEq, Repr

def toClass : Fault → Class
  | .outOfRange _ | .noSuchLine => .range
  | .zeroStep | .nulInPath => .value
  | .noPath | .unknownField => .kind
  | .notCell => .part
  | .unavailable _ _ => .unavailable
  | _ => .invalid

/-- The wording for a file that cannot be used. -/
def unavailableText (path : Text) (reason : Option Text) : Text :=
  "Failed to open file: ".toList ++ path ++
    match reason with
    | none | some [] => []
    | some r => " (".toList ++ r ++ [')']

/-- The wording of a fault, where it has one. -/
def message? : Fault → Option Text
  | .lineKind kind => some ("line must be a string, got ".toList ++ kind.toList)
  | .lineFeed line => some ("line must not contain a newline: ".toList ++ Text.quoted line)
  | .outOfRange index => some ("line index ".toList ++ Text.ofInt index ++ " out of range".toList)
  | .notNetlist => some "line_store must be a LineStore".toList
  | .noNetlistText => some "netlist_text must be provided as a string".toList
  | .notCellTable => some "modules must be a mapping of name -> Module".toList
  | .descriptorKind => some "descriptor_text must be a string".toList
  | .noDescriptor =>
    some "one of modules, descriptor_text or descriptor_path is required".toList
  | .unknownBanner name => some ("unknown banner '".toList ++ name ++ ['\x27'])
  | .settingNotBoolean key =>
    some ("FixerConfig.".toList ++ key ++ " must be a boolean".toList)
  | .settingNotPath => some "FixerConfig.module_descriptor must be a Path".toList
  | .generatorBlank => some "FixerConfig.generator_name must be a non-empty string".toList
  | .generatorLines => some "FixerConfig.generator_name must be a single line".toList
  | .unknownSettings keys =>
    some ("unknown FixerConfig keys: ".toList ++ [',', ' '].intercalate keys)
  | .unavailable path reason => some (unavailableText path reason)
  | .noSuchLine | .zeroStep | .notCell | .noPath | .unknownField | .nulInPath => none

end Fault

end NetlistPrep
