import NetlistPrep.Text

/-!
# Lines of a text

Lines end at a line feed and at nothing else; a carriage return in front of it belongs to the line
end (`lines`). A file is read with every line end, `\r\n` and a lone `\r` too, turned into a line
feed first (`unifyLineEnds`).
-/

namespace NetlistPrep.Text

/-- A line without the carriage return at its end, if it has one. -/
def dropReturn (t : Text) : Text := if t.getLast? = some '\r' then t.dropLast else t

/-- The lines of a text, the last one included even where it is empty. -/
def lines (t : Text) : List Text := (split (· == '\n') t).map dropReturn

/-- Turns every line end into a line feed. -/
def unifyLineEnds : Text → Text
  | '\r' :: '\n' :: r => '\n' :: unifyLineEnds r
  | '\r' :: r => '\n' :: unifyLineEnds r
  | c :: r => c :: unifyLineEnds r
  | [] => []

theorem mem_of_mem_dropReturn {c : Char} {t : Text} (h : c ∈ dropReturn t) : c ∈ t := by
  unfold dropReturn at h
  split at h
  · exact (List.dropLast_sublist t).subset h
  · exact h

theorem not_newline_of_mem_lines {t line : Text} (h : line ∈ lines t) : '\n' ∉ line := by
  obtain ⟨piece, hp, rfl⟩ := List.mem_map.1 h
  intro hc
  simpa using not_sep_of_mem_split hp _ (mem_of_mem_dropReturn hc)

end NetlistPrep.Text
