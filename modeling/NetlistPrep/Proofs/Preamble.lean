import NetlistPrep.Preamble
import NetlistPrep.Proofs.Outcome

/-!
# What a preamble puts in front

* `prependBanner_eq` and `ensureSections_eq` give the netlist and the answer in closed form: in
  front of the lines stands what is missing from them, and nothing else changes.
* `Section.standard_apart` and `Section.standard_lines` are what the second one asks for: no default
  line begins a later section, and every default line is a line.
-/

namespace NetlistPrep

open Outcome

/-- Taking texts as lines keeps them, and none of them may hold a line feed. -/
theorem Line.mapM_ofText_eq_ok_iff {ts : List Text} {lines : List Line} :
    ts.mapM Line.ofText = .ok lines ↔ lines.map (·.text) = ts := by
  induction ts generalizing lines with
  | nil =>
    rw [List.mapM_nil, List.map_eq_nil_iff]
    exact ⟨fun h => (Except.ok.inj h).symm, fun h => congrArg Except.ok h.symm⟩
  | cons t ts ih =>
    rw [List.mapM_cons, bind_eq_ok_iff]
    constructor
    · rintro ⟨l, hl, h⟩
      obtain ⟨rest, hrest, h⟩ := bind_eq_ok_iff.1 h
      rw [← Except.ok.inj h, List.map_cons, Line.ofText_eq_ok_iff.1 hl, ih.1 hrest]
    · intro h
      obtain ⟨l, rest, rfl, hl, hrest⟩ := List.map_eq_cons_iff.1 h
      exact ⟨l, Line.ofText_eq_ok_iff.2 hl, bind_eq_ok_iff.2 ⟨rest, ih.2 hrest, rfl⟩⟩

/-! ## Banners -/

namespace Banner

/-- The lines of a banner that lines lack: all of them, unless its marker is there. -/
def missing (b : Banner) (ts : List Text) : List Text := if b.marker ∈ ts then [] else b.lines

theorem mem_of_mem_missing {b : Banner} {ts : List Text} {l : Text} (h : l ∈ b.missing ts) :
    l ∈ b.lines := by
  unfold missing at h
  split at h
  · simp at h
  · exact h

theorem newline_not_mem_netlist : ∀ l ∈ netlist.lines, '\n' ∉ l := by decide

theorem newline_not_mem_generator {name : Text} (h : '\n' ∉ name) :
    ∀ l ∈ (generator name).lines, '\n' ∉ l := by
  intro l hl
  have htitle : '\n' ∉ "* Generated by ".toList ++ name := by
    rw [List.mem_append, not_or]
    exact ⟨by decide, h⟩
  simp only [generator, List.mem_cons, List.not_mem_nil, or_false] at hl
  rcases hl with rfl | rfl | rfl | rfl | rfl
  · decide
  · exact htitle
  · decide
  · decide
  · decide

end Banner

/-- **A banner comes in front where its marker is missing,** and the answer tells whether it did. -/
theorem Netlist.prependBanner_eq {b : Banner} (h : ∀ l ∈ b.lines, '\n' ∉ l) (n : Netlist) :
    (n.prependBanner b).1.texts = b.missing n.texts ++ n.texts ∧
      (n.prependBanner b).2 = .ok (decide (b.marker ∉ n.texts)) := by
  unfold prependBanner Banner.missing
  by_cases hm : b.marker ∈ n.texts
  · simp [hm]
  · have hlines : b.lines.mapM Line.ofText = .ok (b.lines.pmap Line.mk h) := by
      simp [Line.mapM_ofText_eq_ok_iff, List.map_pmap]
    simp [hm, hlines, List.map_pmap]

/-! ## Sections -/

namespace Section

/-- Tells whether some of the lines begins with the marker of a section. -/
def Begins (ts : List Text) (s : Section) : Prop := ∃ t ∈ ts, s.marker <+: t

instance (ts : List Text) (s : Section) : Decidable (s.Begins ts) :=
  inferInstanceAs (Decidable (∃ t ∈ ts, s.marker <+: t))

/-- The default lines of the sections that lines lack. -/
def missing (sections : List Section) (ts : List Text) : List Text :=
  (sections.filter fun s => ¬ s.Begins ts).map (·.defaultLine)

/-- No default line begins a section further back. -/
def Apart (sections : List Section) : Prop :=
  sections.Pairwise fun s s' => ¬ s'.marker <+: s.defaultLine

theorem isIn_iff {s : Section} {n : Netlist} : s.isIn n = true ↔ s.Begins n.texts := by
  simp [isIn, Begins]

theorem begins_append {s : Section} {a b : List Text} :
    s.Begins (a ++ b) ↔ s.Begins a ∨ s.Begins b := by
  simp [Begins, or_and_right, exists_or]

theorem missing_append_of_apart {front : List Text} {sections : List Section} (ts : List Text)
    (h : ∀ s ∈ sections, ¬ s.Begins front) :
    missing sections (front ++ ts) = missing sections ts := by
  unfold missing
  congr 1
  refine List.filter_congr fun s hs => ?_
  simp [begins_append, h s hs]

theorem mem_missing_iff {sections : List Section} {ts : List Text} {l : Text} :
    l ∈ missing sections ts ↔ ∃ s ∈ sections, ¬ s.Begins ts ∧ s.defaultLine = l := by
  simp [missing, and_assoc]

theorem standard_apart : Apart standard := by
  unfold Apart
  decide

theorem standard_lines : ∀ s ∈ standard, '\n' ∉ s.defaultLine := by decide

theorem defaultLine_standard : ∀ s ∈ standard, s.defaultLine = s.marker := by decide

end Section

/-- **The default lines of the missing sections come in front, the last one first,** and the answer
gives them in their order. -/
theorem Netlist.ensureSections_eq {sections : List Section} (happart : Section.Apart sections)
    (hlines : ∀ s ∈ sections, '\n' ∉ s.defaultLine) (n : Netlist) :
    (ensureSections sections n).1.texts = (Section.missing sections n.texts).reverse ++ n.texts ∧
      (ensureSections sections n).2 = .ok (Section.missing sections n.texts) := by
  induction sections generalizing n with
  | nil => exact ⟨rfl, rfl⟩
  | cons s rest ih =>
    obtain ⟨hs, hrest⟩ := List.pairwise_cons.1 happart
    have hlines' : ∀ s' ∈ rest, '\n' ∉ s'.defaultLine :=
      fun s' hs' => hlines s' (List.mem_cons_of_mem _ hs')
    rw [ensureSections]
    by_cases hin : s.Begins n.texts
    · have hmissing : Section.missing (s :: rest) n.texts = Section.missing rest n.texts := by
        simp [Section.missing, hin]
      rw [if_pos (Section.isIn_iff.2 hin), hmissing]
      exact ih hrest hlines' n
    · have hmissing :
          Section.missing (s :: rest) n.texts = s.defaultLine :: Section.missing rest n.texts := by
        simp [Section.missing, hin]
      let l : Line := ⟨s.defaultLine, hlines s List.mem_cons_self⟩
      have hl : Line.ofText s.defaultLine = .ok l := Line.ofText_eq_ok_iff.2 rfl
      obtain ⟨htexts, hanswer⟩ := ih hrest hlines' (n.prepend l)
      have hfront : ∀ s' ∈ rest, ¬ s'.Begins [s.defaultLine] := fun s' hs' => by
        simpa [Section.Begins] using hs s' hs'
      have hsame : Section.missing rest (s.defaultLine :: n.texts) = Section.missing rest n.texts :=
        Section.missing_append_of_apart n.texts hfront
      rw [Netlist.texts_prepend, hsame] at htexts hanswer
      rw [if_neg (mt Section.isIn_iff.1 hin), hl, hmissing]
      simp only [htexts, hanswer, List.reverse_cons, List.append_assoc]
      exact ⟨rfl, rfl⟩

end NetlistPrep
