import NetlistPrep.Netlist
import NetlistPrep.Text.Blank

/-!
# Cutting and joining texts

What `split`, `words` and `lines` give on texts that are put together from parts.

* `split_append_cons`: a separator between two parts cuts them apart; `split_intercalate`: pieces
  without the separator come back from their joined text.
* `words_append_blank`: a blank between two parts keeps their words apart. Every fact about the
  words of a composed text is a case of it.
* `texts_ofText_toText`: the text of a netlist reads back as its lines, each without a carriage
  return at its end and the empty ones left out.
-/

namespace NetlistPrep

namespace Text

/-! ## Pieces -/

theorem split_eq_splitOnP (sep : Char → Bool) (t : Text) : split sep t = t.splitOnP sep := by
  induction t with
  | nil => rfl
  | cons c r ih =>
    rw [List.splitOnP_cons_eq_if_modifyHead, split, ← ih]
    obtain ⟨p, ps, hp⟩ := List.exists_cons_of_ne_nil (split_ne_nil sep r)
    simp [hp]

@[simp]
theorem split_nil (sep : Char → Bool) : split sep [] = [[]] := rfl

theorem split_append_cons {sep : Char → Bool} {c : Char} (hc : sep c = true) (a b : Text) :
    split sep (a ++ c :: b) = split sep a ++ split sep b := by
  simp only [split_eq_splitOnP]
  exact List.splitOnP_append_cons a b hc

theorem split_cons_sep (d : Char) (t : Text) :
    split (· == d) (d :: t) = [] :: split (· == d) t :=
  if_pos (beq_self_eq_true d)

/-- Characters that are no separators belong to the first piece of what follows them. -/
theorem split_append_of_not_mem {d : Char} {a t p : Text} {ps : List Text} (ha : d ∉ a)
    (ht : split (· == d) t = p :: ps) : split (· == d) (a ++ t) = (a ++ p) :: ps := by
  induction a with
  | nil => exact ht
  | cons c a ih =>
    simp only [List.mem_cons, not_or] at ha
    rw [List.cons_append, split, if_neg (by simpa using Ne.symm ha.1), ih ha.2]
    rfl

theorem split_of_not_sep {sep : Char → Bool} {t : Text} (h : ∀ c ∈ t, sep c = false) :
    split sep t = [t] := by
  rw [split_eq_splitOnP]
  exact List.splitOnP_eq_singleton h

theorem split_intercalate {d : Char} {pieces : List Text} (hne : pieces ≠ [])
    (h : ∀ p ∈ pieces, d ∉ p) : split (· == d) ([d].intercalate pieces) = pieces := by
  rw [split_eq_splitOnP, ← List.splitOn_eq_splitOnP]
  exact List.splitOn_intercalate d h hne

/-- Joining puts the separator in front of every text but the first. -/
theorem intercalate_cons_map {α : Type} (d : Char) (w : Text) (f : α → Text) (l : List α) :
    [d].intercalate (w :: l.map f) = w ++ l.flatMap fun a => d :: f a := by
  induction l generalizing w with
  | nil => simp
  | cons a l ih =>
    rw [List.map_cons, List.intercalate_cons_cons, ih]
    simp

/-- The pieces of a row of closed lines are the lines, and nothing behind the last line feed. -/
theorem split_flatMap_closed {lines : List Text} (h : ∀ l ∈ lines, '\n' ∉ l) :
    split (· == '\n') (lines.flatMap (· ++ ['\n'])) = lines ++ [[]] := by
  induction lines with
  | nil => rfl
  | cons l rest ih =>
    have hl : ∀ c ∈ l, (c == '\n') = false := by
      intro c hc
      have : c ≠ '\n' := fun he => h l List.mem_cons_self (he ▸ hc)
      simpa using this
    rw [List.flatMap_cons, List.append_assoc, List.singleton_append,
      split_append_cons (by rfl), split_of_not_sep hl,
      ih fun l' hl' => h l' (List.mem_cons_of_mem _ hl')]
    rfl

/-! ## Words -/

@[simp]
theorem words_nil : words [] = [] := rfl

/-- **A blank keeps the words on its two sides apart.** -/
theorem words_append_blank {c : Char} (hc : isBlank c = true) (a b : Text) :
    words (a ++ c :: b) = words a ++ words b := by
  rw [words, split_append_cons hc, List.filter_append]
  rfl

theorem words_concat_blank {c : Char} (hc : isBlank c = true) (a : Text) :
    words (a ++ [c]) = words a := by
  simpa using words_append_blank hc a []

theorem words_cons_blank {c : Char} (hc : isBlank c = true) (b : Text) :
    words (c :: b) = words b := by
  simpa using words_append_blank hc [] b

/-- A text that begins with a character that is no blank begins with a word that begins with it. -/
theorem words_cons {c : Char} (hc : isBlank c = false) (r : Text) :
    ∃ w ws, words (c :: r) = (c :: w) :: ws := by
  obtain ⟨p, ps, hp⟩ := List.exists_cons_of_ne_nil (split_ne_nil isBlank r)
  refine ⟨p, ps.filter (· ≠ []), ?_⟩
  simp [words, split, hc, hp]

/-- A text without blanks is one word. -/
theorem words_of_not_blank {t : Text} (hne : t ≠ []) (h : ∀ c ∈ t, isBlank c = false) :
    words t = [t] := by
  rw [words, split_of_not_sep h, List.filter_cons_of_pos (by simpa using hne)]
  rfl

/-- Every character that is no blank is in a word. -/
theorem exists_word_of_mem {c : Char} {t : Text} (hc : isBlank c = false) (h : c ∈ t) :
    ∃ w ∈ words t, c ∈ w := by
  induction t with
  | nil => simp at h
  | cons d r ih =>
    by_cases hd : isBlank d = true
    · rw [words_cons_blank hd]
      rcases List.mem_cons.1 h with rfl | h
      · simp [hd] at hc
      · exact ih h
    · obtain ⟨p, ps, hp⟩ := List.exists_cons_of_ne_nil (split_ne_nil isBlank r)
      have hw : words (d :: r) = (d :: p) :: ps.filter (· ≠ []) := by simp [words, split, hd, hp]
      rcases List.mem_cons.1 h with rfl | h
      · exact ⟨c :: p, by simp [hw], by simp⟩
      · obtain ⟨w, hwr, hcw⟩ := ih h
        rw [words, hp, List.filter_cons] at hwr
        split at hwr
        · rcases List.mem_cons.1 hwr with rfl | hwr
          · exact ⟨d :: w, by simp [hw], by simp [hcw]⟩
          · exact ⟨w, by simp only [hw]; exact List.mem_cons_of_mem _ hwr, hcw⟩
        · exact ⟨w, by simp only [hw]; exact List.mem_cons_of_mem _ hwr, hcw⟩

/-! ## Carriage returns at the end of a line -/

theorem dropReturn_concat (t : Text) : dropReturn (t ++ ['\r']) = t := by
  simp [dropReturn]

theorem dropReturn_eq_self_iff {t : Text} : dropReturn t = t ↔ t.getLast? ≠ some '\r' := by
  refine ⟨fun h hr => ?_, fun h => if_neg h⟩
  rcases List.eq_nil_or_concat t with rfl | ⟨a, c, rfl⟩
  · simp at hr
  · obtain rfl : c = '\r' := by simpa using hr
    rw [List.concat_eq_append, dropReturn_concat] at h
    simpa using congrArg List.length h

theorem dropReturn_of_return_not_mem {t : Text} (h : '\r' ∉ t) : dropReturn t = t :=
  dropReturn_eq_self_iff.2 (mt List.mem_of_getLast? h)

/-- A text is what `dropReturn` leaves of it, or that and a carriage return. -/
theorem eq_or_eq_concat_of_dropReturn (t : Text) :
    t = dropReturn t ∨ t = dropReturn t ++ ['\r'] := by
  by_cases h : t.getLast? = some '\r'
  · rcases List.eq_nil_or_concat t with rfl | ⟨a, c, rfl⟩
    · exact .inl rfl
    · obtain rfl : c = '\r' := by simpa using h
      rw [List.concat_eq_append, dropReturn_concat]
      exact .inr rfl
  · exact .inl (dropReturn_eq_self_iff.2 h).symm

theorem length_le_length_dropReturn_add_one (t : Text) : t.length ≤ (dropReturn t).length + 1 := by
  rcases eq_or_eq_concat_of_dropReturn t with h | h
  · rw [← h]
    omega
  · conv => lhs; rw [h]
    simp

/-- A word without a carriage return begins a text as it begins the text with one at its end. -/
theorem prefix_dropReturn_iff {w t : Text} (h : '\r' ∉ w) : w <+: dropReturn t ↔ w <+: t := by
  rcases eq_or_eq_concat_of_dropReturn t with ht | ht
  · rw [← ht]
  · conv => rhs; rw [ht]
    rw [List.prefix_concat_iff]
    refine ⟨.inr, fun hp => hp.resolve_left ?_⟩
    rintro rfl
    simp at h

@[simp]
theorem words_dropReturn (t : Text) : words (dropReturn t) = words t := by
  rcases eq_or_eq_concat_of_dropReturn t with h | h
  · rw [← h]
  · conv => rhs; rw [h]
    exact (words_concat_blank (by decide) _).symm

theorem getLast?_ne_of_not_suffix {t : Text} (h : ¬ ['\r', '\r'] <:+ t) :
    (dropReturn t).getLast? ≠ some '\r' := by
  intro hr
  rcases eq_or_eq_concat_of_dropReturn t with ht | ht
  · exact dropReturn_eq_self_iff.1 ht.symm (by rw [ht]; exact hr)
  · obtain ⟨a, ha⟩ := List.getLast?_eq_some_iff.1 hr
    exact h ⟨a, by rw [ht, ha]; simp⟩

/-! ## The first line of a text -/

theorem lines_of_newline_not_mem {l : Text} (hl : '\n' ∉ l) : lines l = [dropReturn l] := by
  have hsep : ∀ c ∈ l, (c == '\n') = false := by
    intro c hc
    simpa using fun h : c = '\n' => hl (h ▸ hc)
  rw [lines, split_of_not_sep hsep, List.map_singleton]

theorem lines_append_newline {l : Text} (hl : '\n' ∉ l) (t : Text) :
    lines (l ++ '\n' :: t) = dropReturn l :: lines t := by
  have hfirst := lines_of_newline_not_mem hl
  rw [lines] at hfirst
  rw [lines, split_append_cons (by rfl), List.map_append, hfirst, List.singleton_append, lines]

end Text

namespace Netlist

theorem not_newline_of_mem_texts {n : Netlist} {t : Text} (h : t ∈ n.texts) : '\n' ∉ t := by
  obtain ⟨l, _, rfl⟩ := List.mem_map.1 h
  exact l.noLineFeed

/-- **The text of a netlist reads back as its lines,** a carriage return at their ends and empty
lines left out. -/
theorem texts_ofText_toText (n : Netlist) :
    (ofText n.toText).texts = (n.texts.map Text.dropReturn).filter (· ≠ []) := by
  rw [texts_ofText, Text.lines, toText,
    Text.split_flatMap_closed fun _ => not_newline_of_mem_texts]
  simp [Text.dropReturn]

end Netlist

end NetlistPrep
