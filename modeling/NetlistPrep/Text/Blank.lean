import NetlistPrep.Text

/-!
# Blanks

The blank characters, and what a text is without the blanks around it (`trim`) or between its words
(`words`). No word holds a blank (`not_blank_of_mem_words`).
-/

namespace NetlistPrep.Text

/-- The code points that count as blank, as closed ranges. -/
def blankRanges : List (Nat × Nat) :=
  [(0x09, 0x0D), (0x1C, 0x20), (0x85, 0x85), (0xA0, 0xA0), (0x1680, 0x1680), (0x2000, 0x200A),
   (0x2028, 0x2029), (0x202F, 0x202F), (0x205F, 0x205F), (0x3000, 0x3000)]

def isBlank (c : Char) : Bool :=
  blankRanges.any fun range => range.1 ≤ c.toNat && c.toNat ≤ range.2

/-- The text from its first character on that is not blank. -/
def dropBlanks (t : Text) : Text := t.dropWhile isBlank

/-- The text without the blanks at its two ends. -/
def trim (t : Text) : Text := dropEnd isBlank (dropBlanks t)

/-- The words of a text: its pieces between blanks that are not empty. -/
def words (t : Text) : List Text := (split isBlank t).filter (· ≠ [])

theorem not_blank_of_mem_words {t w : Text} (h : w ∈ words t) : ∀ c ∈ w, isBlank c = false :=
  not_sep_of_mem_split (List.mem_filter.1 h).1

end NetlistPrep.Text
