import NetlistPrep.Preamble
import NetlistPrep.Text.Letter
import NetlistPrep.Text.Pattern

/-!
# Markers as patterns

A marker is looked for by a written pattern: the start of a line, and behind it the marker, in which
every character stands for itself.

* `Pattern.escape` writes a text as a pattern that means this text.
* `Pattern.ofSource?` reads a written pattern.
* `Section.pattern?` is the pattern of a section.
-/

namespace NetlistPrep

namespace Pattern

/-- Nothing, at the start of a text. -/
def start : Pattern := notBehind fun _ => true

/-- The characters that are written with a backslash before them. -/
def escaped : Text :=
  ['(', ')', '[', ']', '{', '}', '?', '*', '+', '-', '|', '^', '$', '\\', '.', '&', '~', '#', ' ',
    '\t', '\n', '\r', '\x0b', '\x0c']

/-- A text as it is written in a pattern. -/
def escape (t : Text) : Text := t.flatMap fun c => if c ∈ escaped then ['\\', c] else [c]

/-- The characters that mean something else in a written pattern than themselves. -/
def operators : Text := ['.', '\\', '[', '{', '(', ')', '*', '+', '?', '^', '$', '|']

/-- Reads a written pattern of starts and of characters that stand for themselves, with a backslash
before them or without one. Any other notation is not read; a backslash before a letter or a digit
begins one. -/
def ofSource? : Text → Option Pattern
  | [] => some empty
  | '\\' :: c :: r =>
    if Text.isLetter c || Text.isAsciiDigit c then none
    else (ofSource? r).map (seq (char (· == c)))
  | '^' :: r => (ofSource? r).map (seq start)
  | c :: r => if c ∈ operators then none else (ofSource? r).map (seq (char (· == c)))

end Pattern

/-- The pattern by which the lines of a section are recognised. -/
def Section.pattern? (s : Section) : Option Pattern :=
  Pattern.ofSource? ('^' :: Pattern.escape s.marker)

end NetlistPrep
