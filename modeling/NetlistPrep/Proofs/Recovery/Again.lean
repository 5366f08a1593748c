import NetlistPrep.Proofs.Attribute

/-!
# Recovering again

What recovery writes behind a line is read when recovery is made again. It never changes the area
and the perimeter of a line, so the same rectangle is written every time. A width and a length that
were written may be read as those of the line, but only if the line had none, and then from the
second time on.

* `find?_text_ofLine` is what a key finds in the line that recovery leaves.
* `rectangle?_text_ofLine` and `find?_repeated` are what stays the same from one time to the next.
* `repeated_grows_by_constant_suffix` puts them together: from the second time on the same text is
  written.
-/

namespace NetlistPrep.Recovery

open Attribute

/-- A line after so many recoveries, each made from the line that the one before it left. -/
def repeated (line : Text) : Nat → Text
  | 0 => line
  | n + 1 => (ofLine (repeated line n)).text

/-- The rectangle with the area and the perimeter that a line gives. -/
def rectangle? (line : Text) : Option Rectangle :=
  (outline? line).bind fun outline => Rectangle.solve? outline.1 outline.2

/-! ## What depends on the attributes found -/

variable {a b : Text}

theorem value?_congr {key : Text} (h : find? key a = find? key b) :
    value? key a = value? key b := by
  rw [value?, value?, h]

theorem outline?_congr (harea : find? "area".toList a = find? "area".toList b)
    (hperimeter : find? ['p', 'j'] a = find? ['p', 'j'] b) : outline? a = outline? b := by
  rw [outline?, outline?, value?_congr harea, value?_congr hperimeter]

theorem finger?_congr (hwidth : find? ['w'] a = find? ['w'] b)
    (hlength : find? ['l'] a = find? ['l'] b)
    (hfingers : find? "fingers".toList a = find? "fingers".toList b) : finger? a = finger? b := by
  rw [finger?, finger?, value?_congr hwidth, value?_congr hlength, value?_congr hfingers]

/-! ## What is read of the fields written -/

/-- Keys of which recovery writes no field. -/
theorem find?_append_fields_of_other {key : Text}
    (hkey : key ∈ ["fingers".toList, "area".toList, ['p', 'j']]) (line : Text)
    {fs : List (Text × Float)} (hfs : ∀ f ∈ fs, f.1 ∈ [['f', 'w'], ['w'], ['l']]) :
    find? key (line ++ fs.flatMap fieldText) = find? key line := by
  have hkeys : ∀ key ∈ ["fingers".toList, "area".toList, ['p', 'j']], IsName key ∧
      ∀ name ∈ [['f', 'w'], ['w'], ['l']], IsName name ∧ key ≠ name := by decide
  obtain ⟨hname, hother⟩ := hkeys key hkey
  rw [find?_append_fields (hname.not_mem (by decide)),
    findField?_eq_none hname fun f hf => hother f.1 (hfs f hf), Option.or_none]

theorem outline?_append_fields (line : Text) {fs : List (Text × Float)}
    (hfs : ∀ f ∈ fs, f.1 ∈ [['f', 'w'], ['w'], ['l']]) :
    outline? (line ++ fs.flatMap fieldText) = outline? line :=
  outline?_congr (find?_append_fields_of_other (by simp) line hfs)
    (find?_append_fields_of_other (by simp) line hfs)

theorem finger_ofLine (line : Text) : (ofLine line).finger = finger? line := by
  simp only [ofLine]
  split
  · rfl
  · split <;> rfl

/-- The finger width is written before area and perimeter are looked for, and does not matter to
them. -/
theorem outline?_widened (line : Text) :
    outline? (line ++ ((finger? line).map fingerText).getD []) = outline? line := by
  cases finger? line with
  | none => simp
  | some x =>
    have hfield : outline? (line ++ [(['f', 'w'], x)].flatMap fieldText) = outline? line :=
      outline?_append_fields line (by simp)
    simpa [fingerText_eq] using hfield

theorem rectangle_ofLine (line : Text) : (ofLine line).rectangle = rectangle? line := by
  simp only [ofLine, outline?_widened, rectangle?]
  split
  · rename_i hnone
    rw [hnone, Option.bind_none]
  · rename_i area perimeter hsome
    rw [hsome, Option.bind_some]
    split
    · rename_i hsolve
      exact hsolve.symm
    · rename_i r hsolve
      exact hsolve.symm

theorem fields_congr (hfinger : finger? a = finger? b) (hrectangle : rectangle? a = rectangle? b) :
    (ofLine a).fields = (ofLine b).fields := by
  simp only [fields, finger_ofLine, rectangle_ofLine, hfinger, hrectangle]

/-! ## One time more -/

theorem find?_text_ofLine {key : Text} (hkey : ' ' ∉ key) (line : Text) :
    find? key (ofLine line).text = (find? key line).or (findField? key (ofLine line).fields) := by
  rw [text_ofLine, find?_append_fields hkey]

/-- **The rectangle of a line stays the same.** -/
theorem rectangle?_text_ofLine (line : Text) : rectangle? (ofLine line).text = rectangle? line := by
  unfold rectangle?
  rw [text_ofLine, outline?_append_fields line fun _ => key_of_mem_fields]

/-- What a side has among the fields depends on the rectangle alone. -/
theorem findField?_fields {key : Text} (hkey : key ∈ [['w'], ['l']]) (line : Text) :
    findField? key (ofLine line).fields =
      findField? key (((rectangle? line).map fun r =>
        [(['w'], r.width), (['l'], r.length)]).getD []) := by
  have hsides : ∀ key ∈ [['w'], ['l']], IsName key ∧ key ≠ ['f', 'w'] := by decide
  obtain ⟨hname, hne⟩ := hsides key hkey
  have hfinger : findField? key ((finger? line).map fun x => (['f', 'w'], x)).toList = none := by
    refine findField?_eq_none hname fun f hf => ?_
    obtain ⟨x, -, rfl⟩ := Option.map_eq_some_iff.1 (Option.mem_toList.1 hf)
    have hfw : IsName ['f', 'w'] := by decide
    exact ⟨hfw, hne⟩
  rw [fields, finger_ofLine, rectangle_ofLine, findField?, List.findSome?_append]
  rw [findField?] at hfinger
  rw [hfinger, Option.none_or]
  cases rectangle? line <;> rfl

/-! ## Any number of times -/

variable (line : Text)

theorem rectangle?_repeated (n : Nat) : rectangle? (repeated line n) = rectangle? line := by
  induction n with
  | zero => rfl
  | succ n ih => rw [repeated, rectangle?_text_ofLine, ih]

/-- **A side is found in the same way from the first recovery on:** if the line has none, it is the
one that the first recovery wrote. -/
theorem find?_repeated {key : Text} (hkey : key ∈ [['w'], ['l']]) (n : Nat) :
    find? key (repeated line (n + 1)) = find? key (repeated line 1) := by
  have hblank : ∀ key ∈ [['w'], ['l']], ' ' ∉ key := by decide
  have hstep : ∀ k, find? key (repeated line (k + 1)) =
      (find? key (repeated line k)).or (findField? key (ofLine line).fields) := by
    intro k
    rw [repeated, find?_text_ofLine (hblank key hkey), findField?_fields hkey,
      findField?_fields hkey, rectangle?_repeated]
  induction n with
  | zero => rfl
  | succ n ih => rw [hstep, ih, hstep, Option.or_assoc, Option.or_self]

theorem find?_fingers_repeated (n : Nat) :
    find? "fingers".toList (repeated line n) = find? "fingers".toList line := by
  induction n with
  | zero => rfl
  | succ n ih =>
    rw [repeated, text_ofLine, find?_append_fields_of_other (by simp) _ fun _ => key_of_mem_fields,
      ih]

theorem fields_repeated (n : Nat) :
    (ofLine (repeated line (n + 1))).fields = (ofLine (repeated line 1)).fields := by
  refine fields_congr (finger?_congr ?_ ?_ ?_) ?_
  · exact find?_repeated line (by simp) n
  · exact find?_repeated line (by simp) n
  · rw [find?_fingers_repeated, find?_fingers_repeated]
  · rw [rectangle?_repeated, rectangle?_repeated]

/-- A line that gives both sides, or no rectangle, has the sides found after a recovery that were
found before it. -/
theorem fields_repeated_one
    (h : ((value? ['w'] line).isSome ∧ (value? ['l'] line).isSome) ∨
      (ofLine line).rectangle = none) :
    (ofLine (repeated line 1)).fields = (ofLine line).fields := by
  have hside : ∀ key ∈ [['w'], ['l']], find? key (repeated line 1) = find? key line := by
    intro key hkey
    have hblank : ∀ key ∈ [['w'], ['l']], ' ' ∉ key := by decide
    rw [repeated, repeated, find?_text_ofLine (hblank key hkey)]
    rcases h with ⟨hw, hl⟩ | h
    · have hvalue : (value? key line).isSome := by
        simp only [List.mem_cons, List.not_mem_nil, or_false] at hkey
        rcases hkey with rfl | rfl
        · exact hw
        · exact hl
      cases hfind : find? key line with
      | none => simp [value?, hfind] at hvalue
      | some found => rfl
    · rw [rectangle_ofLine] at h
      rw [findField?_fields hkey, h]
      exact Option.or_none
  refine fields_congr (finger?_congr ?_ ?_ ?_) ?_
  · exact hside _ (by simp)
  · exact hside _ (by simp)
  · exact find?_fingers_repeated line 1
  · exact rectangle?_repeated line 1

/-- **Repeated recovery grows a line by a constant suffix.** Every recovery keeps the line that it
gets as the start of the one that it leaves, and from the second one on each writes the same text.
The first one writes that text, too, if the line gives both a width and a length or if no rectangle
is written behind it. -/
theorem repeated_grows_by_constant_suffix :
    (∀ n, repeated line n <+: repeated line (n + 1)) ∧
      ∃ suffix, (∀ n ≥ 1, repeated line (n + 1) = repeated line n ++ suffix) ∧
        (((value? ['w'] line).isSome ∧ (value? ['l'] line).isSome) ∨
            (ofLine line).rectangle = none →
          repeated line 1 = line ++ suffix) := by
  refine ⟨fun n => line_prefix_text _,
    (ofLine (repeated line 1)).fields.flatMap fieldText, fun n hn => ?_, fun h => ?_⟩
  · obtain ⟨k, rfl⟩ := Nat.exists_eq_add_of_le' hn
    rw [repeated, text_ofLine, fields_repeated]
  · rw [fields_repeated_one line h]
    exact text_ofLine line

/-- Where a line gives both sides, the first suffix is the one that comes every time. -/
theorem repeated_grows_by_constant_suffix_both_sides :
    ∃ suffix, repeated "M1 w=2u l=1u".toList 1 = "M1 w=2u l=1u".toList ++ suffix ∧
      repeated "M1 w=2u l=1u".toList 2 = repeated "M1 w=2u l=1u".toList 1 ++ suffix := by
  obtain ⟨-, suffix, hlater, hfirst⟩ := repeated_grows_by_constant_suffix "M1 w=2u l=1u".toList
  exact ⟨suffix, hfirst (.inl (by decide +kernel)), hlater 1 (by decide)⟩

/-- A line that gives both sides gets its finger width behind it once more every time. -/
example : repeated "M1 w=2u l=1u".toList 2 = "M1 w=2u l=1u fw=2u fw=2u".toList := by
  decide +kernel

end NetlistPrep.Recovery
