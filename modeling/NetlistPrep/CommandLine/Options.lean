import NetlistPrep.Log
import NetlistPrep.Settings
import NetlistPrep.Text.Digit

/-!
# Command-line options

The words of a command line as options. A long option may be cut short to any beginning that no
other long option has, and takes its value behind an equals sign or in the next word. Short options
may share one word; the first of them that takes a value takes the rest of the word, or else the
next word. There are two editions of the rules for what may share a word (`Edition`).

* `Meaning.ofWord` tells what a word is by itself.
* `Options.ofWords` puts the words together. Words that are no options are refused, because there
  are no other arguments.
-/

namespace NetlistPrep.CommandLine

/-- An option without a value. -/
inductive Flag
  | help
  | noParam
  | noCaseConversion
  | noCalcData
  | noHeader
  | verbose
deriving DecidableEq, Repr

/-- An option whose value is the path of a file. -/
inductive Slot
  | input
  | output
  | descriptor
deriving DecidableEq, Repr

inductive Choice
  | flag (f : Flag)
  | slot (s : Slot)
deriving DecidableEq, Repr

def names : List (Text × Choice) :=
  [("-h", .flag .help), ("--help", .flag .help),
    ("-i", .slot .input), ("--input", .slot .input),
    ("-o", .slot .output), ("--output", .slot .output),
    ("--no-param", .flag .noParam),
    ("--no-case-conversion", .flag .noCaseConversion),
    ("--no-calc-data", .flag .noCalcData),
    ("--no-header", .flag .noHeader),
    ("-m", .slot .descriptor), ("--soc-module", .slot .descriptor),
    ("-v", .flag .verbose), ("--verbose", .flag .verbose)].map fun e => (e.1.toList, e.2)

/-- The editions of the rules for words with several parts.

In the early one an equals sign behind the first short option of a word only divides it from the
rest, and behind a later one it belongs to the value; a letter that is no option makes the word
unusable; two dashes are no value even where they stand in the place of one.

In the late one an equals sign divides any short option from its value, and an option without a
value takes none; a letter that is no option is left over with all behind it; two dashes may be the
value of an option. -/
inductive Edition
  | early
  | late
deriving DecidableEq, Repr

/-! ## Single words -/

/-- How a word with options ends: with all said, with an option that takes a value, which may be
part of the word, or with letters that are left over. -/
inductive Tail
  | done
  | slot (s : Slot) (value : Option Text)
  | surplus
deriving DecidableEq, Repr

inductive Meaning
  | operand
  | unknown
  /-- Two dashes end the options. -/
  | separator
  /-- The beginning of more than one option. -/
  | ambiguous
  /-- An option without a value with more behind it than the letters of short options. -/
  | overfull
  | options (flags : List Flag) (tail : Tail)
deriving DecidableEq, Repr

/-- What a word means that has an option without a value in front of what means this. -/
def Meaning.behind (f : Flag) : Meaning → Meaning
  | .options flags tail => .options (f :: flags) tail
  | other => other

/-- An option with nothing behind its name. -/
def Choice.alone : Choice → Meaning
  | .flag f => .options [f] .done
  | .slot s => .options [] (.slot s none)

/-- The value that a short option among others takes from what is behind its letter. -/
def Edition.rest (e : Edition) : Text → Option Text
  | [] => none
  | '=' :: value => some (if e = .late then value else '=' :: value)
  | value => some value

/-- What a letter means that is no short option. A dash and an equals sign are no letters. -/
def Meaning.ofUnknownLetter (e : Edition) (c : Char) : Meaning :=
  if e = .late ∧ c ∉ ['-', '='] then .options [] .surplus else .overfull

/-- Short options by their letters. The first that takes a value takes all letters behind it. -/
def Meaning.ofLetters (e : Edition) : Text → Meaning
  | [] => .options [] .done
  | c :: rest =>
    match names.lookup ['-', c] with
    | none => ofUnknownLetter e c
    | some (.flag f) => (ofLetters e rest).behind f
    | some (.slot s) => .options [] (.slot s (e.rest rest))

/-- A short option with a text behind its name, or behind the equals sign that `separated` tells of.
For an option without a value the text has to be the letters of others. -/
def Choice.withLetters (e : Edition) (separated : Bool) (letters : Text) : Choice → Meaning
  | .flag f =>
    if letters = [] ∨ e = .late ∧ separated then .overfull
    else (Meaning.ofLetters e letters).behind f
  | .slot s => .options [] (.slot s (some letters))

/-- A long option with a value behind an equals sign. -/
def Choice.withValue (value : Text) : Choice → Meaning
  | .flag _ => .overfull
  | .slot s => .options [] (.slot s (some value))

/-- Digits, or a point with digits behind it and maybe some before it. -/
def isUnsignedNumber (t : Text) : Bool :=
  let whole := t.takeWhile Text.isDigit
  match t.dropWhile Text.isDigit with
  | [] => whole ≠ []
  | '.' :: fraction => fraction ≠ [] && fraction.all Text.isDigit
  | _ => false

/-- A word that is a negative number, a line feed behind it left out of account. -/
def isNegativeNumber : Text → Bool
  | '-' :: t => isUnsignedNumber (if t.getLast? = some '\n' then t.dropLast else t)
  | _ => false

/-- The options that a word is the beginning of, with what is behind the beginning. -/
def candidates (e : Edition) (word : Text) : List Meaning :=
  if ['-', '-'].isPrefixOf word then
    (names.filter fun n => (Text.before '=' word).isPrefixOf n.1).map fun n =>
      match Text.after? ['='] word with
      | some value => n.2.withValue value
      | none => n.2.alone
  else ((names.lookup (word.take 2)).map fun c => c.withLetters e false (word.drop 2)).toList

/-- What a word that begins with a dash is, if it is no option under its full name. -/
def Meaning.ofOther (e : Edition) (word : Text) : Meaning :=
  match candidates e word with
  | [one] => one
  | _ :: _ :: _ => .ambiguous
  | [] => if isNegativeNumber word || word.contains ' ' then .operand else .unknown

def Meaning.ofWord (e : Edition) (word : Text) : Meaning :=
  if word.head? ≠ some '-' ∨ word = ['-'] then .operand
  else if word = ['-', '-'] then .separator
  else match names.lookup word with
    | some c => c.alone
    | none =>
      let name := Text.before '=' word
      match names.lookup name, Text.after? ['='] word with
      | some c, some text => if name.length = 2 then c.withLetters e true text else c.withValue text
      | _, _ => Meaning.ofOther e word

/-! ## Whole command lines -/

/-- What an option that takes the path of a file was given. -/
inductive SlotValue
  | path (p : Path)
  /-- Two dashes in the place of a value, where they are none. -/
  | nothing
deriving DecidableEq, Repr

/-- What a text in the place of a value gives. -/
def SlotValue.ofText (e : Edition) (t : Text) : SlotValue :=
  if e = .early ∧ t = ['-', '-'] then .nothing else .path (Path.ofText t)

structure Options where
  input : Option SlotValue := none
  output : Option SlotValue := none
  descriptor : Option SlotValue := none
  param : Bool := true
  caseConversion : Bool := true
  calcData : Bool := true
  header : Bool := true
  verbose : Bool := false
deriving DecidableEq, Repr

inductive Asked
  | run (o : Options)
  | help
  | refused
deriving DecidableEq, Repr

namespace Options

def set (o : Options) : Flag → Options
  | .help => o
  | .noParam => { o with param := false }
  | .noCaseConversion => { o with caseConversion := false }
  | .noCalcData => { o with calcData := false }
  | .noHeader => { o with header := false }
  | .verbose => { o with verbose := true }

def fill (o : Options) (value : SlotValue) : Slot → Options
  | .input => { o with input := some value }
  | .output => { o with output := some value }
  | .descriptor => { o with descriptor := some value }

/-- Goes through the words; `surplus` tells that there was one that is refused in the end. Help is
given at once, before later words are looked at. -/
def collect (e : Edition) (o : Options) (surplus : Bool) : List (Text × Meaning) → Asked
  | [] => if surplus then .refused else .run o
  | (_, .options flags tail) :: rest =>
    let set := flags.foldl Options.set o
    let asksHelp := flags.contains .help
    match tail, rest with
    | .done, rest => if asksHelp then .help else collect e set surplus rest
    | .surplus, rest => if asksHelp then .help else collect e set true rest
    | .slot s (some value), rest =>
      if asksHelp then .help else collect e (set.fill (.ofText e value) s) surplus rest
    | .slot s none, (value, .operand) :: rest =>
      if asksHelp then .help else collect e (set.fill (.ofText e value) s) surplus rest
    | .slot _ none, _ => .refused
  | (_, .overfull) :: _ => .refused
  | (_, .ambiguous) :: _ => .refused
  | (_, .operand) :: rest => collect e o true rest
  | (_, .unknown) :: rest => collect e o true rest
  | (_, .separator) :: rest => collect e o true rest

/-- The words with their meanings. Behind two dashes there are only operands. -/
def meanings (e : Edition) : List Text → List (Text × Meaning)
  | [] => []
  | word :: rest =>
    match Meaning.ofWord e word with
    | .separator => (word, .separator) :: rest.map fun w => (w, .operand)
    | m => (word, m) :: meanings e rest

/-- What words ask for. A beginning of more than one option is refused wherever it stands. -/
def ofWords (e : Edition) (words : List Text) : Asked :=
  let all := meanings e words
  if all.any fun m => m.2 = .ambiguous then .refused else collect e {} false all

/-- The level that records are asked for at. -/
def level (o : Options) : Option Text := if o.verbose then some Level.debug.name else none

def descriptorPath (o : Options) : Except Fault (Option Path) :=
  match o.descriptor with
  | none => .ok none
  | some (.path p) => .ok (some p)
  | some .nothing => .error .settingNotPath

def settings (o : Options) : Except Fault Settings := do
  let descriptor ← o.descriptorPath
  return {
    caseConversion := o.caseConversion
    sectionDefaults := o.param
    header := o.header
    geometry := o.calcData
    descriptor }

end Options

end NetlistPrep.CommandLine
