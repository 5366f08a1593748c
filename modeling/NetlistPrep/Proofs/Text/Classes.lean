import NetlistPrep.Text.Blank
import NetlistPrep.Text.Digit
import NetlistPrep.Text.Letter

/-!
# Classes of characters

Blanks, decimal digits and letters are given by ranges of code points. No character belongs to two of
these classes.
-/

namespace NetlistPrep.Text

variable {c : Char}

theorem exists_range_of_isBlank (h : isBlank c = true) :
    ∃ range ∈ blankRanges, range.1 ≤ c.toNat ∧ c.toNat ≤ range.2 := by
  obtain ⟨range, hmem, hin⟩ := List.any_eq_true.1 h
  simp only [Bool.and_eq_true, decide_eq_true_eq] at hin
  exact ⟨range, hmem, hin⟩

theorem exists_zero_of_isDigit (h : isDigit c = true) :
    ∃ z ∈ zeros, z ≤ c.toNat ∧ c.toNat < z + 10 := by
  obtain ⟨d, hd⟩ := Option.isSome_iff_exists.1 h
  obtain ⟨z, hz, -⟩ := Option.map_eq_some_iff.1 hd
  have hin := List.find?_some hz
  simp only [Bool.and_eq_true, decide_eq_true_eq] at hin
  exact ⟨z, List.mem_of_find?_eq_some hz, hin⟩

theorem toNat_of_isLetter (h : isLetter c = true) : 0x41 ≤ c.toNat ∧ c.toNat < 0x7B := by
  simp [isLetter, Char.le_def, UInt32.le_iff_toNat_le] at h
  have : c.val.toNat = c.toNat := rfl
  omega

theorem not_isBlank_of_isDigit (h : isDigit c = true) : isBlank c = false := by
  have hapart : ∀ z ∈ zeros, ∀ range ∈ blankRanges, range.2 < z ∨ z + 10 ≤ range.1 := by decide
  rw [← Bool.not_eq_true]
  intro hblank
  obtain ⟨z, hz, hdigit⟩ := exists_zero_of_isDigit h
  obtain ⟨range, hrange, hin⟩ := exists_range_of_isBlank hblank
  have := hapart z hz range hrange
  omega

theorem not_isBlank_of_isLetter (h : isLetter c = true) : isBlank c = false := by
  have hapart : ∀ range ∈ blankRanges, range.2 < 0x41 ∨ 0x7B ≤ range.1 := by decide
  rw [← Bool.not_eq_true]
  intro hblank
  obtain ⟨range, hrange, hin⟩ := exists_range_of_isBlank hblank
  have hletter := toNat_of_isLetter h
  have := hapart range hrange
  omega

theorem not_isDigit_of_isLetter (h : isLetter c = true) : isDigit c = false := by
  have hapart : ∀ z ∈ zeros, z + 10 ≤ 0x41 ∨ 0x7B ≤ z := by decide
  rw [← Bool.not_eq_true]
  intro hdigit
  obtain ⟨z, hz, hin⟩ := exists_zero_of_isDigit hdigit
  have hletter := toNat_of_isLetter h
  have := hapart z hz
  omega

end NetlistPrep.Text
