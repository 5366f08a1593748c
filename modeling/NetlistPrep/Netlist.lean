import NetlistPrep.Line
import NetlistPrep.Text.Lines

/-!
# Netlists

A netlist is an ordered list of lines. `texts` is its view as plain texts, by which every operation
is described.

* `ofText` takes the lines of a text that are not empty; `toText` closes every line by a line feed.
* `prepend`, `prependBlock`, `replace`, `insertAfter` change it in one place.
* `position?` is the place that an index means, counted from the end where it is negative.
-/

namespace NetlistPrep

structure Netlist where
  lines : List Line
deriving DecidableEq, Repr

namespace Netlist

def texts (n : Netlist) : List Text := n.lines.map (·.text)

def size (n : Netlist) : Nat := n.lines.length

theorem ext_texts {m n : Netlist} (h : m.texts = n.texts) : m = n := by
  obtain ⟨a⟩ := m
  obtain ⟨b⟩ := n
  congr
  exact (List.map_inj_right fun _ _ => Line.ext_text).1 h

theorem length_texts (n : Netlist) : n.texts.length = n.size := by
  simp [texts, size]

/-! ## From text and back -/

/-- The lines of a text that are not empty. -/
def ofText (t : Text) : Netlist :=
  ⟨((Text.lines t).filter (· ≠ [])).pmap Line.mk
    fun _ h => Text.not_newline_of_mem_lines (List.mem_filter.1 h).1⟩

@[simp]
theorem texts_ofText (t : Text) : (ofText t).texts = (Text.lines t).filter (· ≠ []) := by
  simp [ofText, texts, List.map_pmap]

/-- Every line with a line feed behind it. -/
def toText (n : Netlist) : Text := n.texts.flatMap (· ++ ['\n'])

/-- Takes plain data as a netlist, unless an item is no line. -/
def ofJson (items : List Json) : Except Fault Netlist := return ⟨← items.mapM Line.ofJson⟩

/-- The short form in which a netlist is shown. -/
def shown (n : Netlist) : Text :=
  "LineStore(".toList ++ Text.ofNat n.size ++ " lines)".toList

/-! ## Changes in one place -/

def prepend (l : Line) (n : Netlist) : Netlist := ⟨l :: n.lines⟩

/-- The netlist with several lines in front of it, in their order. -/
def prependBlock (block : List Line) (n : Netlist) : Netlist := ⟨block ++ n.lines⟩

/-- The netlist with another line at a position. -/
def replace (p : Nat) (l : Line) (n : Netlist) : Netlist := ⟨n.lines.set p l⟩

/-- The netlist with a line put in behind a position. -/
def insertAfter (p : Nat) (l : Line) (n : Netlist) : Netlist :=
  ⟨n.lines.take (p + 1) ++ l :: n.lines.drop (p + 1)⟩

@[simp]
theorem texts_prepend (l : Line) (n : Netlist) : (n.prepend l).texts = l.text :: n.texts := rfl

@[simp]
theorem texts_prependBlock (block : List Line) (n : Netlist) :
    (n.prependBlock block).texts = block.map (·.text) ++ n.texts := by
  simp [prependBlock, texts]

@[simp]
theorem texts_replace (p : Nat) (l : Line) (n : Netlist) :
    (n.replace p l).texts = n.texts.set p l.text := by
  simp [replace, texts]

@[simp]
theorem texts_insertAfter (p : Nat) (l : Line) (n : Netlist) :
    (n.insertAfter p l).texts = n.texts.take (p + 1) ++ l.text :: n.texts.drop (p + 1) := by
  simp [insertAfter, texts]

@[simp]
theorem size_replace (p : Nat) (l : Line) (n : Netlist) : (n.replace p l).size = n.size := by
  simp [replace, size]

@[simp]
theorem size_insertAfter (p : Nat) (l : Line) (n : Netlist) :
    (n.insertAfter p l).size = n.size + 1 := by
  simp [insertAfter, size]
  omega

/-! ## Looking up -/

/-- The position that an index means; a negative index counts from the end. -/
def position? (n : Netlist) (index : Int) : Option Nat :=
  if -(n.size : Int) ≤ index ∧ index < n.size then
    some (if index < 0 then index + n.size else index).toNat
  else none

/-- The text of the line at an index. -/
def get? (n : Netlist) (index : Int) : Option Text := (n.position? index).bind (n.texts[·]?)

/-- Tells whether plain data is the text of some line. -/
def contains (n : Netlist) : Json → Bool
  | .str t => n.texts.contains t
  | _ => false

end Netlist

end NetlistPrep
