import NetlistPrep.Text.Letter

/-!
# Log records

Records of what a run notices on its way. A record is shown if its level reaches the threshold in
force; the threshold comes from the level asked for, or else from the environment. A few names stand
for something that is no threshold, and asking for one of them is refused (`Logging.refuses`).
-/

namespace NetlistPrep

inductive Level
  | debug
  | info
  | warning
deriving DecidableEq, Repr

namespace Level

def name : Level → Text
  | .debug => "DEBUG".toList
  | .info => "INFO".toList
  | .warning => "WARNING".toList

def rank : Level → Nat
  | .debug => 10
  | .info => 20
  | .warning => 30

end Level

/-- A record: its level, the part of the program that speaks, and what it says. -/
structure Record where
  level : Level
  source : Text
  message : Text
deriving DecidableEq, Repr

def Record.text (r : Record) : Text :=
  '[' :: r.level.name ++ "] ".toList ++ r.source ++ ": ".toList ++ r.message ++ ['\n']

/-- The state of logging: at how many places records are shown, and from which rank on. -/
structure Logging where
  places : Nat
  threshold : Nat
deriving DecidableEq, Repr

namespace Logging

/-- The thresholds that can be asked for by name. -/
def thresholds : List (Text × Nat) :=
  [("CRITICAL", 50), ("FATAL", 50), ("ERROR", 40), ("WARNING", 30), ("WARN", 30), ("INFO", 20),
    ("DEBUG", 10), ("NOTSET", 0)].map fun e => (e.1.toList, e.2)

/-- The threshold of a name in any case. -/
def threshold? (name : Text) : Option Nat := thresholds.lookup (Text.upper name)

/-- The names of something that is no threshold. -/
def reserved : List Text := ["BASIC_FORMAT", "_STYLES"].map (·.toList)

def isReserved (name : Text) : Bool := reserved.contains (Text.upper name)

/-- Tells whether the level that counts, the requested one where it is known or else that of the
environment, has the name of something that is no threshold. -/
def refuses (env level : Option Text) : Bool :=
  if level.any fun name => (threshold? name).isSome || isReserved name then level.any isReserved
  else env.any isReserved

/-- The threshold that an environment asks for; warnings are shown unless it knows better. -/
def fromEnvironment (env : Option Text) : Nat :=
  (env.bind threshold?).getD Level.warning.rank

/-- The threshold for a requested level, which goes before the environment where it is known. -/
def requested (env level : Option Text) : Nat :=
  (level.bind threshold?).getD (fromEnvironment env)

def start : Logging := ⟨0, Level.warning.rank⟩

/-- Sets the threshold unless that is refused, and a place for records unless there is one. -/
def configure (env level : Option Text) (l : Logging) : Logging :=
  ⟨max 1 l.places, if refuses env level then l.threshold else requested env level⟩

def sourceName : Option Text → Text
  | none | some [] => "cdl_fixer".toList
  | some name => name

/-- The text of the records that reach the threshold. -/
def shown (l : Logging) (records : List Record) : Text :=
  (records.filter fun r => l.threshold ≤ r.level.rank).flatMap Record.text

end Logging

end NetlistPrep
