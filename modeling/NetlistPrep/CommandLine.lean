import NetlistPrep.CommandLine.Options
import NetlistPrep.Pipeline.Wide
import NetlistPrep.Text.Lenient

/-!
# The command line

One run of the program: it reads a netlist from a file or the standard input, makes a whole run over
it, and writes the result to a file or the standard output. Writing comes last, so that a run that
fails leaves everything as it was, with one exception. A file takes no surrogates, which only the
standard input can bring, and that shows when the file was opened for writing already.

* `CommandLine.work` is the work between reading and writing.
* `CommandLine.Host` is what a run finds around it, and `CommandLine.Host.run` is a run over a tree
  of files.
* `CommandLine.run` is a run on the host that gives texts without surrogates.
-/

namespace NetlistPrep.CommandLine

/-- What a run leaves besides files: its exit code and what it wrote to the two streams. The text
for refused words, and that of a run that broke off, is left to the caller. -/
structure Exit (τ : Type) where
  code : Nat
  stdout : τ
  stderr : Option Text
deriving DecidableEq, Repr

def source : Text := Logging.sourceName none

def inputName : Text := "<stdin>".toList

def usage : Text :=
  ("usage: cdl-fixer [-h] [-i INPUT] [-o OUTPUT] [--no-param]\n" ++
   "                 [--no-case-conversion] [--no-calc-data] [--no-header]\n" ++
   "                 [-m SOC_MODULE] [-v]\n").toList

/-- What is written where help is asked for. -/
def help : Text :=
  usage ++
    ("\nFix a CDL netlist for layout-tool import.\n\noptions:\n" ++
     "  -h, --help            show this help message and exit\n\nBasic options:\n" ++
     "  -i INPUT, --input INPUT\n" ++
     "                        Input netlist (default: stdin).\n" ++
     "  -o OUTPUT, --output OUTPUT\n" ++
     "                        Output netlist (default: stdout).\n\nAdditional options:\n" ++
     "  --no-param            Do not insert missing section declarations.\n" ++
     "  --no-case-conversion  Disable attribute key case conversion.\n" ++
     "  --no-calc-data        Disable fw/w/l calculation.\n" ++
     "  --no-header           Do not add the comment banners.\n" ++
     "  -m SOC_MODULE, --soc-module SOC_MODULE\n" ++
     "                        Module/port description for *.PININFO lines.\n" ++
     "  -v, --verbose         Log pass details to stderr.\n\nexamples:\n" ++
     "  cdl-fixer < input.cdl > output.cdl\n" ++
     "  cdl-fixer --input input.cdl --output output.cdl\n" ++
     "  cdl-fixer --input input.cdl --output output.cdl --soc-module example.soc_mod\n").toList

/-- The descriptor that settings name, from what reading it gave. -/
def loadedFrom (s : Settings) (descriptor : Option (Except Fault Text)) :
    Except Fault (Option Descriptor.Loaded) :=
  match s.descriptor, descriptor with
  | some p, some t => t.map fun t => some (Descriptor.ofFileText p.text t)
  | _, _ => .ok none

/-- The work between reading and writing: the fixed text, and the records on the way to it. -/
def work (o : Options) (netlist : Except Fault WideText) (descriptor : Option (Except Fault Text)) :
    Except Fault (WideText × List Record) := do
  let text ← netlist
  let settings ← o.settings
  let loaded ← loadedFrom settings descriptor
  let result ← Pipeline.runWide settings text (loaded.map (·.cells))
  return (result.text,
    (loaded.map (·.records)).getD [] ++ result.records
      ++ result.warnings.map fun w => ⟨.info, source, w⟩)

/-- Logging as options and environment ask for. -/
def logging (o : Options) (env : Option Text) : Logging := Logging.start.configure env o.level

/-- The text of the file that an option was given. -/
def SlotValue.read (tree : FileTree) : SlotValue → Except Fault Text
  | .path p => TextFile.read tree p.text p
  | .nothing => .error .noPath

/-! ## Hosts -/

/-- What a run finds around it. -/
structure Host where
  /-- How the words of a command line are understood. -/
  edition : Edition
  /-- The standard input gives every line end as a line feed. -/
  translates : Bool
  /-- The standard streams take octets that are no UTF-8, too, and give them as surrogates. -/
  lenient : Bool
deriving DecidableEq, Repr

namespace Host

/-- The text of the octets of the standard input. -/
def decodeOctets (h : Host) (stdin : Octets) : Except Fault WideText :=
  if h.lenient then .ok (Utf8.decodeLenient stdin)
  else match Utf8.decode stdin with
    | .ok t => .ok (WideText.ofText t)
    | .error refusal => .error (.unavailable inputName (some refusal.message.toList))

/-- The text of the standard input, with its line ends as they are given. -/
def decode (h : Host) (stdin : Octets) : Except Fault WideText :=
  if h.translates then (h.decodeOctets stdin).map (WideText.through Text.unifyLineEnds)
  else h.decodeOctets stdin

/-- The text of the netlist that options name: that of a file, or the standard input. -/
def inputText (h : Host) (tree : FileTree) (stdin : Octets) (o : Options) :
    Except Fault WideText :=
  match o.input with
  | some value => (value.read tree).map WideText.ofText
  | none => h.decode stdin

end Host

/-- The end of a run that failed, with what was recorded before. -/
def failed (records : Text) (f : Fault) : Exit WideText :=
  ⟨1, [], some (records ++ f.message?.getD [] ++ ['\n'])⟩

/-- The end of a run that broke off, with a fault that it gives no message for. -/
def brokenOff : Exit WideText := ⟨1, [], none⟩

/-- Writes a fixed text to the file that an option was given, with what was recorded before. A file
that can be opened is empty then, and stays so if the text cannot be written. -/
def deliver (tree : FileTree) (shown : Text) (p : Path) (w : WideText) :
    FileTree × Exit WideText :=
  match WideText.toText? w with
  | some t =>
    match TextFile.write tree p.text p t with
    | .ok written => (written, ⟨0, [], some shown⟩)
    | .error f => (tree, failed shown f)
  | none =>
    match TextFile.write tree p.text p [] with
    | .ok emptied => (emptied, brokenOff)
    | .error f => (tree, failed shown f)

/-- One run of the program with a tree of files, the octets of the standard input, the level that
the environment asks for, and the words of the command line. -/
def Host.run (h : Host) (tree : FileTree) (stdin : Octets) (env : Option Text)
    (words : List Text) : FileTree × Exit WideText :=
  match Options.ofWords h.edition words with
  | .refused => (tree, ⟨2, [], none⟩)
  | .help => (tree, ⟨0, WideText.ofText help, some []⟩)
  | .run o =>
    if Logging.refuses env o.level then (tree, brokenOff)
    else match work o (h.inputText tree stdin o) (o.descriptor.map (·.read tree)) with
      | .error f => (tree, failed [] f)
      | .ok (text, records) =>
        let shown := (logging o env).shown records
        match o.output with
        | none => (tree, ⟨0, text, some shown⟩)
        | some .nothing => (tree, failed shown .noPath)
        | some (.path p) => deliver tree shown p text

/-- The host of a run whose texts have no surrogates. -/
def plainHost : Host := { edition := .early, translates := true, lenient := false }

/-- One run of the program on the plain host. -/
def run (tree : FileTree) (stdin : Octets) (env : Option Text) (words : List Text) :
    FileTree × Exit Text :=
  let r := plainHost.run tree stdin env words
  (r.1, ⟨r.2.code, WideText.chars r.2.stdout, r.2.stderr⟩)

end NetlistPrep.CommandLine
