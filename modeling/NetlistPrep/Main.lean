import NetlistPrep.CommandLine

/-!
# The program

Runs the command line on real files and streams. It reads what the options name, leaves the work to
`CommandLine.work`, and writes what comes of it.
-/

namespace NetlistPrep.CommandLine

/-- The obstacle of a number that the operating system gives, which may come negated. -/
def obstacleOfNumber (number : UInt32) (details : String) : Obstacle :=
  match min number.toNat (-number).toNat with
  | 2 => .missing
  | 20 => .notDirectory
  | 21 => .isDirectory
  | 36 => .nameTooLong
  | n => .other n details.toList

def obstacleOf : IO.Error → Obstacle
  | .noFileOrDirectory _ number details => obstacleOfNumber number details
  | .inappropriateType _ number details => obstacleOfNumber number details
  | .invalidArgument _ number details => obstacleOfNumber number details
  | .permissionDenied _ number details => obstacleOfNumber number details
  | .resourceExhausted _ number details => obstacleOfNumber number details
  | .otherError number details => obstacleOfNumber number details
  | e => .other 5 (toString e).toList

def readText (p : Path) : IO (Except Fault Text) := do
  match TextFile.openable p with
  | .error f => return .error f
  | .ok p =>
    let octets ← try
      let bytes ← IO.FS.readBinFile (String.ofList p.text)
      pure (Except.ok bytes.toList)
    catch e => pure (Except.error (obstacleOf e))
    return TextFile.ofRead p.text p octets

/-- Reads the text of the file that an option was given. -/
def readValue : SlotValue → IO (Except Fault Text)
  | .path p => readText p
  | .nothing => return .error .noPath

def writeText (p : Path) (text : Text) : IO (Except Fault Unit) := do
  match TextFile.openable p with
  | .error f => return .error f
  | .ok p =>
    try
      IO.FS.writeBinFile (String.ofList p.text) (String.ofList text).toUTF8
      return .ok ()
    catch e => return .error (.unavailable p.text (some ((obstacleOf e).message p)))

/-- The host of this program: it understands words as they are understood of late, and its standard
streams are strict and leave line ends alone. -/
def realHost : Host := { edition := .late, translates := false, lenient := false }

def finish (e : Exit WideText) : IO UInt32 := do
  IO.print (String.ofList (WideText.chars e.stdout))
  IO.eprint (String.ofList (e.stderr.getD (if e.code = 2 then usage else [])))
  return e.code.toUInt32

/-- Writes a fixed text to a file, as `deliver` does. -/
def deliverText (shown : Text) (p : Path) (w : WideText) : IO UInt32 := do
  let t := WideText.toText? w
  match t, ← writeText p (t.getD []) with
  | some _, .ok _ => finish ⟨0, [], some shown⟩
  | none, .ok _ => finish brokenOff
  | _, .error f => finish (failed shown f)

def runOptions (o : Options) : IO UInt32 := do
  let env := (← IO.getEnv "LOG_LEVEL").map (·.toList)
  if Logging.refuses env o.level then return ← finish brokenOff
  let netlist ← match o.input with
    | some value => do
      let text ← readValue value
      pure (text.map WideText.ofText)
    | none => do
      let bytes ← (← IO.getStdin).readBinToEnd
      pure (realHost.decode bytes.toList)
  let descriptor ← o.descriptor.mapM readValue
  match work o netlist descriptor with
  | .error f => finish (failed [] f)
  | .ok (text, records) =>
    let shown := (logging o env).shown records
    match o.output with
    | none => finish ⟨0, text, some shown⟩
    | some .nothing => finish (failed shown .noPath)
    | some (.path p) => deliverText shown p text

end NetlistPrep.CommandLine

open NetlistPrep in
/-- Runs the program on its arguments. -/
def main (arguments : List String) : IO UInt32 :=
  let words := arguments.map (·.toList)
  match CommandLine.Options.ofWords CommandLine.realHost.edition words with
  | .refused => CommandLine.finish ⟨2, [], none⟩
  | .help => CommandLine.finish ⟨0, WideText.ofText CommandLine.help, some []⟩
  | .run o => CommandLine.runOptions o
