import NetlistPrep.Text

/-!
# Patterns

A pattern is tried against a text in a fixed order, and the first way in which it matches counts.
The order is that of backtracking: a row of characters is tried as long as it can be before it is
tried shorter, and the first of two alternatives before the second.

* `Pattern.ways` are all ways in which a pattern matches at the start of a text, in that order.
* `Pattern.first?` is the way that counts, and `Pattern.search?` is the one at the first place of a
  text where there is any.
-/

namespace NetlistPrep

/-- How a pattern matches: the text that it takes, the texts of the groups that took part, and what
is left. -/
structure Way where
  text : Text
  groups : List Text
  rest : Text
deriving DecidableEq, Repr

namespace Way

/-- Takes nothing of a text. -/
def nothing (t : Text) : Way := ⟨[], [], t⟩

/-- Takes one character before the others. -/
def cons (c : Char) (m : Way) : Way := ⟨c :: m.text, m.groups, m.rest⟩

/-- One way and another behind it. -/
def append (m m' : Way) : Way := ⟨m.text ++ m'.text, m.groups ++ m'.groups, m'.rest⟩

/-- The character before what is left, for a way that begins behind `last`. -/
def last? (m : Way) (last : Option Char) : Option Char := m.text.getLast?.or last

end Way

inductive Pattern
  | empty
  /-- Nothing, where the character before it is not of a class. -/
  | notBehind (p : Char → Bool)
  /-- One character of a class. -/
  | char (p : Char → Bool)
  /-- A row of characters of a class; it may be empty. -/
  | many (p : Char → Bool)
  | seq (a b : Pattern)
  | alt (a b : Pattern)
  /-- A part whose text is kept. -/
  | group (a : Pattern)

namespace Pattern

/-- A row of at least one character of a class. -/
def many1 (p : Char → Bool) : Pattern := seq (char p) (many p)

/-- A part that may be left out, which is tried last. -/
def optional (a : Pattern) : Pattern := alt a empty

/-- The characters of a word one after the other. -/
def word : Text → Pattern
  | [] => empty
  | c :: r => seq (char (· == c)) (word r)

/-- The rows of a class at the start of a text, the longest first. -/
def rows (p : Char → Bool) : Text → List Way
  | [] => [.nothing []]
  | c :: r => if p c then (rows p r).map (.cons c) ++ [.nothing (c :: r)] else [.nothing (c :: r)]

/-- The ways in which a pattern matches at the start of a text that stands behind the character
`last`, in the order in which they are tried. -/
def ways : Pattern → Option Char → Text → List Way
  | empty, _, t => [.nothing t]
  | notBehind p, last, t => if last.any p then [] else [.nothing t]
  | char _, _, [] => []
  | char p, _, c :: r => if p c then [⟨[c], [], r⟩] else []
  | many p, _, t => rows p t
  | seq a b, last, t => (a.ways last t).flatMap fun m => (b.ways (m.last? last) m.rest).map m.append
  | alt a b, last, t => a.ways last t ++ b.ways last t
  | group a, last, t => (a.ways last t).map fun m => { m with groups := m.text :: m.groups }

/-- How a pattern matches at the start of a text that stands behind the character `last`. -/
def first? (a : Pattern) (last : Option Char) (t : Text) : Option Way := (a.ways last t).head?

/-- How a pattern matches at the first place where it does. -/
def searchFrom? (a : Pattern) : Option Char → Text → Option Way
  | last, [] => a.first? last []
  | last, c :: r => (a.first? last (c :: r)).or (a.searchFrom? (some c) r)

/-- How a pattern matches at the start of a text. -/
def match? (a : Pattern) (t : Text) : Option Way := a.first? none t

/-- How a pattern matches at the first place of a text where it does. -/
def search? (a : Pattern) (t : Text) : Option Way := a.searchFrom? none t

end Pattern

end NetlistPrep
