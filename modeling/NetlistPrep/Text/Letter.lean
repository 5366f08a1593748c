import NetlistPrep.Text

/-!
# Letters

The ASCII classes that keys and units are made of, and the case mappings by which ASCII words are
recognised.

Recognising an ASCII word needs the mappings only as far as they lead into ASCII: apart from ASCII
itself that is the dotted capital I and the Kelvin sign going down, and the dotless i, the long s,
the sharp s and seven ligatures going up. Every other character maps to text with a code point
outside ASCII in it, which no such word has, so it may stay as it is.
-/

namespace NetlistPrep.Text

def isLetter (c : Char) : Bool := ('a' ≤ c && c ≤ 'z') || ('A' ≤ c && c ≤ 'Z')

def isAsciiDigit (c : Char) : Bool := '0' ≤ c && c ≤ '9'

/-- A character that a key name may be made of. -/
def isNameChar (c : Char) : Bool := isLetter c || isAsciiDigit c || c == '_'

/-- The lower case of one character; the dotted capital I keeps its dot as a mark of its own. -/
def lowerChar (c : Char) : Text :=
  if c == 'İ' then ['i', '\u0307']
  else if c == '\u212A' then ['k']
  else [c.toLower]

/-- Lower case, as far as it decides whether an ASCII word is met. -/
def lower (t : Text) : Text := t.flatMap lowerChar

/-- The characters outside ASCII whose upper case is ASCII. -/
def asciiCapitals : List (Char × Text) :=
  [('ß', ['S', 'S']), ('ı', ['I']), ('ſ', ['S']), ('ﬀ', ['F', 'F']), ('ﬁ', ['F', 'I']),
   ('ﬂ', ['F', 'L']), ('ﬃ', ['F', 'F', 'I']), ('ﬄ', ['F', 'F', 'L']), ('ﬅ', ['S', 'T']),
   ('ﬆ', ['S', 'T'])]

def upperChar (c : Char) : Text := (asciiCapitals.lookup c).getD [c.toUpper]

/-- Upper case, as far as it decides whether an ASCII word is met. -/
def upper (t : Text) : Text := t.flatMap upperChar

end NetlistPrep.Text
