import NetlistPrep.Descriptor
import NetlistPrep.Proofs.Text.Replace
import NetlistPrep.Proofs.Text.Split

/-!
# The lines of a descriptor

What a line is, told from the line as it stands in the text: where its first character is that is no
blank, and what follows from there on.

* `cellName?`, `portName?` and `direction?` are the three kinds of lines that have a meaning.
* `entry_ofText` puts the entry of a line in these terms. The line ends that are taken off a line
  first are blanks, and neither a name nor a direction depends on blanks at its end.
-/

namespace NetlistPrep

namespace Text

/-! ## Blanks at the end -/

theorem dropEnd_append_of_forall {p : Char → Bool} {e : Text} (h : ∀ c ∈ e, p c = true) (t : Text) :
    dropEnd p (t ++ e) = dropEnd p t := by
  have hrev : ∀ c ∈ e.reverse, p c = true := fun c hc => h c (List.mem_reverse.1 hc)
  rw [dropEnd, dropEnd, List.reverse_append, List.dropWhile_append_of_pos hrev]

theorem dropBlanks_append_of_forall {e : Text} (h : ∀ c ∈ e, isBlank c = true) (t : Text) :
    dropBlanks (t ++ e) = if dropBlanks t = [] then [] else dropBlanks t ++ e := by
  have he : e.dropWhile isBlank = [] := by
    rw [← List.append_nil e, List.dropWhile_append_of_pos h]
    rfl
  unfold dropBlanks
  rw [List.dropWhile_append, he]
  by_cases ht : t.dropWhile isBlank = []
  · simp [ht]
  · simp [ht]

theorem trim_append_of_forall {e : Text} (h : ∀ c ∈ e, isBlank c = true) (t : Text) :
    trim (t ++ e) = trim t := by
  rw [trim, trim, dropBlanks_append_of_forall h]
  split
  · rename_i hnil
    rw [hnil]
  · exact dropEnd_append_of_forall h _

theorem takeWhile_isBlank_append {t : Text} (ht : dropBlanks t ≠ []) (e : Text) :
    (t ++ e).takeWhile isBlank = t.takeWhile isBlank := by
  rw [List.takeWhile_append, if_neg]
  intro hlen
  have h := congrArg List.length (List.takeWhile_append_dropWhile (p := isBlank) (l := t))
  rw [List.length_append, hlen] at h
  exact ht (List.length_eq_zero_iff.1 (by rw [dropBlanks]; omega))

theorem trim_before_append_of_forall {stop : Char} {e : Text} (h : ∀ c ∈ e, isBlank c = true)
    (t : Text) : trim (before stop (t ++ e)) = trim (before stop t) := by
  unfold before
  rw [List.takeWhile_append]
  split
  · rename_i hlen
    rw [(List.takeWhile_sublist _).eq_of_length hlen]
    exact trim_append_of_forall (fun c hc => h c ((List.takeWhile_sublist _).subset hc)) t
  · rfl

theorem words_append_of_forall {e : Text} (h : ∀ c ∈ e, isBlank c = true) (t : Text) :
    words (t ++ e) = words t := by
  induction e generalizing t with
  | nil => rw [List.append_nil]
  | cons c e ih =>
    rw [words_append_blank (h c List.mem_cons_self)]
    have he : words e = [] := by
      simpa using ih (fun d hd => h d (List.mem_cons_of_mem _ hd)) []
    rw [he, List.append_nil]

theorem after?_append {word e : Text} (hne : word ≠ []) (h : ∀ c ∈ e, c ∉ word) (t : Text) :
    after? word (t ++ e) = (after? word t).map (· ++ e) := by
  have hhead : ∀ c ∈ e.head?, c ∉ word := fun c hc => h c (List.mem_of_mem_head? hc)
  induction t with
  | nil =>
    rw [List.nil_append, after?, if_neg hne, Option.map_none]
    induction e with
    | nil => rw [after?, if_neg hne]
    | cons c e ih =>
      have hnot : ¬ word <+: c :: e := fun hp =>
        hne (List.prefix_nil.1 (prefix_of_prefix_append (a := []) hp hhead))
      rw [after?, if_neg (mt List.isPrefixOf_iff_prefix.1 hnot)]
      exact ih (fun d hd => h d (List.mem_cons_of_mem _ hd))
        fun d hd => h d (List.mem_cons_of_mem _ (List.mem_of_mem_head? hd))
  | cons c t ih =>
    rw [List.cons_append, after?, after?]
    by_cases hp : word <+: c :: t
    · have hp' : word <+: c :: (t ++ e) := hp.trans (List.prefix_append (c :: t) e)
      rw [if_pos (List.isPrefixOf_iff_prefix.2 hp), if_pos (List.isPrefixOf_iff_prefix.2 hp'),
        Option.map_some, ← List.cons_append, List.drop_append_of_le_length hp.length_le]
    · have hp' : ¬ word <+: c :: (t ++ e) := fun h' =>
        hp (prefix_of_prefix_append (a := c :: t) h' hhead)
      rw [if_neg (mt List.isPrefixOf_iff_prefix.1 hp), if_neg (mt List.isPrefixOf_iff_prefix.1 hp'),
        ih]

end Text

theorem Direction.ofText_append_of_forall {e : Text} (h : ∀ c ∈ e, Text.isBlank c = true)
    (t : Text) : Direction.ofText (t ++ e) = Direction.ofText t := by
  rw [Direction.ofText, Direction.ofText, Text.trim_append_of_forall h]

namespace Descriptor

open Text

/-! ## What a line is -/

/-- The number of blanks that a line begins with. -/
def indentation (line : Text) : Nat := (line.takeWhile isBlank).length

theorem indentation_append {line : Text} (h : dropBlanks line ≠ []) (e : Text) :
    indentation (line ++ e) = line.length - (dropBlanks line).length := by
  have hlen := congrArg List.length
    (List.takeWhile_append_dropWhile (p := isBlank) (l := line))
  rw [List.length_append] at hlen
  rw [indentation, takeWhile_isBlank_append h, dropBlanks]
  omega

/-- A line that is not all blank and whose first character that is no blank begins no comment. -/
def Significant (line : Text) : Prop :=
  dropBlanks line ≠ [] ∧ (dropBlanks line).head? ≠ some '#'

instance (line : Text) : Decidable (Significant line) :=
  inferInstanceAs (Decidable (_ ∧ _))

/-- The name on the line of a cell, which is not indented. -/
def cellName? (line : Text) : Option Text :=
  if Significant line ∧ indentation line = 0 then
    some (trim (before ':' (dropBlanks line)))
  else none

/-- The name on the line of a port, which stands four blanks in. -/
def portName? (line : Text) : Option Text :=
  if Significant line ∧ indentation line = 4 then
    some (before ':' ((words (dropBlanks line)).headD []))
  else none

/-- The direction on a line that stands six blanks in and has the word for it. -/
def direction? (line : Text) : Option Direction :=
  if Significant line ∧ indentation line = 6 then
    (after? directionKey (dropBlanks line)).map Direction.ofText
  else none

/-! ## Entries -/

theorem exists_eq_withoutEnd_append (line : Text) :
    ∃ e, line = withoutEnd line ++ e ∧ ∀ c ∈ e, c = '\r' ∨ c = '\n' := by
  let p : Char → Bool := fun c => c == '\r' || c == '\n'
  refine ⟨(line.reverse.takeWhile p).reverse, ?_, ?_⟩
  · rw [withoutEnd, dropEnd, ← List.reverse_append, List.takeWhile_append_dropWhile,
      List.reverse_reverse]
  · intro c hc
    simpa [p] using List.all_eq_true.1 List.all_takeWhile c (List.mem_reverse.1 hc)

/-- **The entry of a line,** told from the line itself. -/
theorem entry_ofText (line : Text) :
    Entry.ofText line =
      if Significant line then
        match indentation line with
        | 0 => .cell (trim (before ':' (dropBlanks line)))
        | 4 => .port (before ':' ((words (dropBlanks line)).headD []))
        | 6 => match after? directionKey (dropBlanks line) with
          | some value => .direction (Direction.ofText value)
          | none => .stray (withoutEnd line)
        | _ => .stray (withoutEnd line)
      else .blank := by
  obtain ⟨e, hline, he⟩ := exists_eq_withoutEnd_append line
  have hblank : ∀ c ∈ e, isBlank c = true := by
    intro c hc
    rcases he c hc with rfl | rfl <;> decide
  have hcontent := dropBlanks_append_of_forall hblank (withoutEnd line)
  rw [← hline] at hcontent
  by_cases hw : dropBlanks (withoutEnd line) = []
  · rw [if_pos hw] at hcontent
    simp [Entry.ofText, Significant, hw, hcontent]
  rw [if_neg hw] at hcontent
  have hindent : indentation line =
      (withoutEnd line).length - (dropBlanks (withoutEnd line)).length :=
    (congrArg indentation hline).trans (indentation_append hw e)
  have hsignificant : Significant line ↔
      ¬ (dropBlanks (withoutEnd line) = [] ∨
        (dropBlanks (withoutEnd line)).head? = some '#') := by
    obtain ⟨c, r, hcr⟩ := List.exists_cons_of_ne_nil hw
    simp [Significant, hcontent, hcr]
  have hkey : ∀ c ∈ e, c ∉ directionKey := by
    intro c hc
    rcases he c hc with rfl | rfl <;> decide
  unfold Entry.ofText
  simp only [hsignificant, hindent, hcontent, trim_before_append_of_forall hblank,
    words_append_of_forall hblank, after?_append (show directionKey ≠ [] by decide) hkey, ite_not]
  cases after? directionKey (dropBlanks (withoutEnd line)) with
  | none => rfl
  | some value =>
    have hvalue := Direction.ofText_append_of_forall hblank value
    simp only [Option.map_some]
    exact hvalue ▸ rfl

def Entry.cell? : Entry → Option Text
  | .cell name => some name
  | _ => none

def Entry.port? : Entry → Option Text
  | .port name => some name
  | _ => none

def Entry.direction? : Entry → Option Direction
  | .direction d => some d
  | _ => none

theorem cell?_ofText (line : Text) : (Entry.ofText line).cell? = cellName? line := by
  rw [entry_ofText, cellName?]
  split
  · rename_i hs
    split
    · rename_i hi
      simp [hs, hi, Entry.cell?]
    · rename_i hi
      simp [hi, Entry.cell?]
    · rename_i hi
      cases after? directionKey (dropBlanks line) <;> simp [hi, Entry.cell?]
    · rename_i h0 _ _
      rw [if_neg fun h => h0 h.2]
      rfl
  · rename_i hs
    simp [hs, Entry.cell?]

theorem port?_ofText (line : Text) : (Entry.ofText line).port? = portName? line := by
  rw [entry_ofText, portName?]
  split
  · rename_i hs
    split
    · rename_i hi
      simp [hi, Entry.port?]
    · rename_i hi
      simp [hs, hi, Entry.port?]
    · rename_i hi
      cases after? directionKey (dropBlanks line) <;> simp [hi, Entry.port?]
    · rename_i h4 _
      rw [if_neg fun h => h4 h.2]
      rfl
  · rename_i hs
    simp [hs, Entry.port?]

theorem direction?_ofText (line : Text) : (Entry.ofText line).direction? = direction? line := by
  rw [entry_ofText, direction?]
  split
  · rename_i hs
    split
    · rename_i hi
      simp [hi, Entry.direction?]
    · rename_i hi
      simp [hi, Entry.direction?]
    · rename_i hi
      cases after? directionKey (dropBlanks line) <;> simp [hs, hi, Entry.direction?]
    · rename_i h6
      rw [if_neg fun h => h6 h.2]
      rfl
  · rename_i hs
    simp [hs, Entry.direction?]

end Descriptor

end NetlistPrep
