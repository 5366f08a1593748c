import NetlistPrep.Fault
import NetlistPrep.Json
import NetlistPrep.Path
import NetlistPrep.Preamble
import NetlistPrep.Text.Blank

/-!
# Settings

Which passes run, where the cell descriptor lies, and the generator that the banner names. Settings
come from plain data under their keys (`Settings.ofMembers`) and go back to it
(`Settings.toMembers`); the generator name is one line that is not blank.
-/

namespace NetlistPrep

structure Settings where
  caseConversion : Bool := true
  sectionDefaults : Bool := true
  header : Bool := true
  geometry : Bool := true
  descriptor : Option Path := none
  generatorName : Text := Banner.defaultGenerator
  notBlank : Text.trim generatorName ≠ [] := by decide
  oneLine : '\n' ∉ generatorName := by decide
deriving Repr

namespace Settings

def descriptorKey : Text := "module_descriptor".toList

def generatorKey : Text := "generator_name".toList

def switchKeys : List Text :=
  ["case_conversion", "section_defaults", "header", "calc_geometry"].map (·.toList)

def keys : List Text := switchKeys ++ [descriptorKey, generatorKey]

/-- The keys among members that no setting has, in order of code points. -/
def unknownKeys (members : List (Text × Json)) : List Text :=
  ((members.map (·.1)).filter fun k => !keys.contains k).mergeSort Text.le

/-- A setting that is on or off; it is on where it is not given. -/
def switch (members : List (Text × Json)) (key : Text) : Except Fault Bool :=
  match members.lookup key with
  | none => .ok true
  | some (.bool b) => .ok b
  | some _ => .error (.settingNotBoolean key)

/-- A generator name that is one line and not blank. -/
def checkedName : Json → Except Fault { name : Text // Text.trim name ≠ [] ∧ '\n' ∉ name }
  | .str name =>
    if blank : Text.trim name = [] then .error .generatorBlank
    else if lines : '\n' ∈ name then .error .generatorLines
    else .ok ⟨name, blank, lines⟩
  | _ => .error .generatorBlank

/-- Settings from members whose keys are known: the switches are looked at first, then the path,
then the name. -/
def check (members : List (Text × Json)) (path : Except Fault (Option Path)) :
    Except Fault Settings := do
  let caseConversion ← switch members "case_conversion".toList
  let sectionDefaults ← switch members "section_defaults".toList
  let header ← switch members "header".toList
  let geometry ← switch members "calc_geometry".toList
  let descriptor ← path
  let name ← checkedName ((members.lookup generatorKey).getD (.str Banner.defaultGenerator))
  return { caseConversion, sectionDefaults, header, geometry, descriptor, generatorName := name.1,
           notBlank := name.2.1, oneLine := name.2.2 }

/-- The path that a value means, if it is one or nothing. -/
def path? : Option Json → Option (Option Path)
  | none | some .null => some none
  | some (.str t) => some (some (Path.ofText t))
  | some _ => none

/-- Settings from plain data, where a path is given as a text. -/
def ofMembers (members : List (Text × Json)) : Except Fault Settings :=
  match unknownKeys members with
  | [] =>
    match path? (members.lookup descriptorKey) with
    | some path => check members (.ok path)
    | none => .error .noPath
  | unknown => .error (.unknownSettings unknown)

/-- Settings from fields as they are, where a text is no path. -/
def ofFields (fields : List (Text × Json)) : Except Fault Settings :=
  match unknownKeys fields with
  | [] => check fields <|
    match fields.lookup descriptorKey with
    | none | some .null => .ok none
    | some _ => .error .settingNotPath
  | _ => .error .unknownField

def toMembers (s : Settings) : List (Text × Json) :=
  [("case_conversion".toList, .bool s.caseConversion),
   ("section_defaults".toList, .bool s.sectionDefaults),
   ("header".toList, .bool s.header),
   ("calc_geometry".toList, .bool s.geometry),
   (descriptorKey, match s.descriptor with
     | some p => .str p.text
     | none => .null),
   (generatorKey, .str s.generatorName)]

def toJson (s : Settings) : Json := .obj s.toMembers

end Settings

end NetlistPrep
