import NetlistPrep.Proofs.Pipeline.Output

/-!
# Banners in a second run

A run with a header leaves the title of each banner among its lines, but the line passes that come
behind the banners work on the titles too. The title of the netlist banner withstands them. That of
the generator banner does where its name lets it (`TitleKept`), and only then, or where the netlist
had a line that turns into it, does the next run find it (`exists_bannersAdded_again`).
-/

namespace NetlistPrep.Pipeline

open PinInfo Text

variable {tree : FileTree} {s : Settings} {cells : Option CellTable} {lines : List Text}

/-! ## Reading the output again -/

/-- The lines that are read from the text of the output lines. -/
def readAgain (s : Settings) (cells : Option CellTable) (lines : List Text) : List Text :=
  ((outputLines s cells lines).map dropReturn).filter (· ≠ [])

theorem mem_readAgain_iff {w : Text} :
    w ∈ readAgain s cells lines ↔ w ≠ [] ∧ ∃ l ∈ outputLines s cells lines, dropReturn l = w := by
  rw [readAgain, List.mem_filter, List.mem_map]
  simp [and_comm]

/-- A line that begins as no pin-info line is read from a line that the line passes left. -/
theorem mem_readAgain_iff_fixLine {w : Text} (hne : w ≠ []) (hw : ¬ marker <+: w) :
    w ∈ readAgain s cells lines ↔
      ∃ l ∈ preamble s lines ++ lines, dropReturn (fixLine s l) = w := by
  rw [mem_readAgain_iff, outputLines, mergedFor_eq]
  constructor
  · rintro ⟨-, l, hl, rfl⟩
    rcases mem_of_mem_merged hl with hl | ⟨l', -, hi⟩
    · obtain ⟨z, hz, rfl⟩ := List.mem_map.1 hl
      exact ⟨z, hz, rfl⟩
    · exact absurd ((prefix_dropReturn_iff (by decide)).2 (marker_prefix_of_info? hi)) hw
  · rintro ⟨z, hz, rfl⟩
    refine ⟨hne, fixLine s z, mem_merged_of_mem (List.mem_map_of_mem hz) ?_ false, rfl⟩
    exact mt (prefix_dropReturn_iff (by decide)).2 hw

/-- **A second run has no other pin-info lines to write than the first.** -/
theorem infosAreLines_again
    (h : InfosAreLines cells ((preamble s lines ++ lines).map (fixLine s))) :
    InfosAreLines cells ((preamble s (readAgain s cells lines) ++ readAgain s cells lines).map
      (fixLine s)) := by
  intro l hl info hi
  obtain ⟨x, hx, rfl⟩ := List.mem_map.1 hl
  -- A line of the second run is one of its preamble, a line that the first run fixed, or a pin-info
  -- line that the first run wrote. Only the second kind declares anything.
  rcases List.mem_append.1 hx with hx | hx
  · rw [info?_of_declared?_eq_none (declared?_fixLine_of_mem_preamble hx)] at hi
    simp at hi
  obtain ⟨-, y, hy, rfl⟩ := mem_readAgain_iff.1 hx
  rw [outputLines, mergedFor_eq] at hy
  rcases mem_of_mem_merged hy with hy | ⟨y', -, hinfo⟩
  · obtain ⟨z, -, rfl⟩ := List.mem_map.1 hy
    rw [info?_of_declared?_eq (declared?_fixLine_dropReturn_fixLine z)] at hi
    exact h _ hy info hi
  · have hmarker : marker <+: fixLine s (dropReturn y) :=
      (prefix_fixLine_iff (by decide)).2
        ((prefix_dropReturn_iff (by decide)).2 (marker_prefix_of_info? hinfo))
    rw [info?_of_isPinInfo hmarker] at hi
    simp at hi

/-! ## The title of the generator banner -/

/-- **The title of the generator banner withstands the run and the way through a text:** it does not
end in a carriage return, it has no key in upper case where keys are lowered, and no geometry is
recovered from it. -/
structure TitleKept (s : Settings) : Prop where
  noReturn : (title s).getLast? ≠ some '\r'
  keys : s.caseConversion = true → ∀ r ∈ KeyCase.standard, ¬ r.1 <:+: title s
  geometry : s.geometry = true → (Recovery.ofLine (title s)).changed = false

theorem lowerLine_eq_self_iff {line : Text} :
    lowerLine s line = line ↔
      (s.caseConversion = true → ∀ r ∈ KeyCase.standard, ¬ r.1 <:+: line) := by
  cases hc : s.caseConversion with
  | false => simp [lowerLine, hc]
  | true => simp [lowerLine, hc, KeyCase.lowerKeys_eq_self_iff]

/-- A line comes through the run and the way through a text if nothing is done to it: what is lost
at its end is one character, and recovered fields are longer than that. -/
theorem dropReturn_fixLine_eq_self_iff {line : Text} :
    dropReturn (fixLine s line) = line ↔ line.getLast? ≠ some '\r' ∧ lowerLine s line = line ∧
      (s.geometry = true → (Recovery.ofLine line).changed = false) := by
  constructor
  · intro h
    have hlower := length_lowerLine (s := s) line
    have hlength := length_le_length_dropReturn_add_one (fixLine s line)
    rw [h] at hlength
    have hfix : fixLine s line = lowerLine s line := by
      cases hg : s.geometry with
      | false => exact fixLine_of_not_geometry hg line
      | true =>
        rw [fixLine_of_geometry hg] at hlength ⊢
        refine Recovery.text_ofLine_of_not_changed ?_
        rw [← Bool.not_eq_true]
        intro hchanged
        have := Recovery.length_text_ofLine _ hchanged
        omega
    rw [hfix] at h
    have hself : lowerLine s line = line := by
      rcases eq_or_eq_concat_of_dropReturn (lowerLine s line) with he | he
      · rw [he, h]
      · rw [he, h] at hlower
        simp at hlower
    rw [hself] at h hfix
    refine ⟨dropReturn_eq_self_iff.1 h, hself, fun hg => ?_⟩
    rwa [fixLine_of_geometry hg, hself, Recovery.text_ofLine_eq_self_iff] at hfix
  · rintro ⟨hreturn, hlower, hgeometry⟩
    have hfix : fixLine s line = line := by
      unfold fixLine
      split
      · rename_i hg
        rw [hlower, Recovery.text_ofLine_of_not_changed (hgeometry hg)]
      · exact hlower
    rw [hfix, dropReturn_eq_self_iff]
    exact hreturn

theorem titleKept_iff : TitleKept s ↔ dropReturn (fixLine s (title s)) = title s := by
  rw [dropReturn_fixLine_eq_self_iff, lowerLine_eq_self_iff]
  exact ⟨fun h => ⟨h.noReturn, h.keys, h.geometry⟩, fun h => ⟨h.1, h.2.1, h.2.2⟩⟩

/-- A name without an equals sign is safe unless it ends in a carriage return. -/
theorem titleKept_of_not_mem (h : '=' ∉ s.generatorName)
    (hreturn : (title s).getLast? ≠ some '\r') : TitleKept s := by
  rw [titleKept_iff, fixLine_of_not_mem (eq_not_mem_title h)]
  exact dropReturn_eq_self_iff.2 hreturn

/-! ## The second run -/

theorem netlist_marker_mem_readAgain (hh : s.header = true) :
    Banner.netlist.marker ∈ readAgain s cells lines := by
  refine (mem_readAgain_iff_fixLine (by decide) (by decide)).2 ⟨Banner.netlist.marker, ?_, ?_⟩
  · by_cases h : Banner.netlist.marker ∈ lines
    · exact List.mem_append_right _ h
    · have hb : Banner.netlist.marker ∈ Banner.netlist.lines := by decide
      refine List.mem_append_left _ ?_
      simp [preamble, hh, Banner.missing, h, hb]
  · rw [fixLine_of_not_mem (by decide)]
    decide

/-- **The title of the generator banner is found again where it is kept,** and otherwise where some
line of the netlist turns into it. -/
theorem title_mem_readAgain_iff (hh : s.header = true) :
    title s ∈ readAgain s cells lines ↔
      TitleKept s ∨ ∃ line ∈ lines, dropReturn (fixLine s line) = title s := by
  rw [mem_readAgain_iff_fixLine title_ne_nil not_marker_prefix_title]
  constructor
  · rintro ⟨l, hl, h⟩
    rcases List.mem_append.1 hl with hl | hl
    · refine .inl (titleKept_iff.2 ?_)
      rcases mem_of_mem_preamble hl with rfl | hl
      · exact h
      · have hreturn : ∀ l ∈ fixedFront, dropReturn l = l := by decide
        have hfix := fixLine_of_not_mem (s := s) (eq_not_mem_fixedFront l hl)
        rw [hfix, hreturn l hl] at h
        rw [← h, hfix, hreturn l hl]
    · exact .inr ⟨l, hl, h⟩
  · rintro (h | ⟨l, hl, h⟩)
    · refine ⟨title s, ?_, titleKept_iff.1 h⟩
      by_cases hm : title s ∈ lines
      · exact List.mem_append_right _ hm
      · have hb : title s ∈ (Banner.generator s.generatorName).lines := by
          simp [title, Banner.generator]
        have hmissing : (Banner.generator s.generatorName).missing lines =
            (Banner.generator s.generatorName).lines := if_neg hm
        refine List.mem_append_left _ ?_
        simp [preamble, hh, hmissing, hb]
    · exact ⟨l, List.mem_append_right _ hl, h⟩

/-- **What a second run with a header does about banners:** it succeeds, it adds no netlist banner,
and it adds no generator banner exactly where the title is kept or some line of the netlist turns
into it. -/
theorem exists_bannersAdded_again (tree : FileTree) (t u : Text) (s : Settings)
    (cells : Option CellTable) (hheader : s.header = true)
    (h : fixText tree s cells t = .ok u) :
    ∃ r added, runRequest tree s (.ofText u cells) = .ok r ∧
      bannersAdded r.reports = [false, added] ∧
      (added = false ↔
        TitleKept s ∨ ∃ line ∈ body t, dropReturn (fixLine s line) = title s) := by
  obtain ⟨loaded, hloaded, hinfos, hbody⟩ := body_of_fixText_eq_ok h
  have hagain := infosAreLines_again hinfos
  rw [readAgain, ← hbody] at hagain
  obtain ⟨r, hr, -, -, hadded⟩ := exists_runRequest_ofText hloaded hagain
  refine ⟨r, decide (title s ∉ body u), hr, ?_, ?_⟩
  · have hnetlist : Banner.netlist.marker ∈ body u := by
      rw [hbody]
      exact netlist_marker_mem_readAgain hheader
    rw [hadded, missingBanners, if_pos hheader, decide_eq_false (not_not_intro hnetlist)]
  · rw [decide_eq_false_iff_not, not_not, hbody]
    exact title_mem_readAgain_iff hheader

/-- A second run for a generator whose name has no equals sign. -/
theorem bannersAdded_again_default :
    ∃ u r, fixText ⟨[], []⟩ { geometry := false } none "R1 a b\n".toList = .ok u ∧
      runRequest ⟨[], []⟩ { geometry := false } (.ofText u none) = .ok r ∧
      bannersAdded r.reports = [false, false] := by
  have hcells : cellsFor ⟨[], []⟩ { geometry := false } none = .ok none := rfl
  obtain ⟨n, hn, -⟩ := exists_fixText hcells (t := "R1 a b\n".toList)
    (infosAreLines_of_ports (by decide) _)
  obtain ⟨r, added, hr, hadded, hiff⟩ :=
    exists_bannersAdded_again ⟨[], []⟩ "R1 a b\n".toList n.toText { geometry := false } none rfl hn
  obtain rfl : added = false := hiff.2 (.inl (titleKept_of_not_mem (by decide) (by decide)))
  exact ⟨n.toText, r, hn, hr, hadded⟩

/-- A key in upper case in the name of the generator is lowered in the title, and the next run does
not find it. -/
theorem bannersAdded_again_upper_key :
    (do
      let s : Settings :=
        { sectionDefaults := false, geometry := false, generatorName := "tool W=1".toList }
      let u ← fixText ⟨[], []⟩ s none "R1 a b\n".toList
      let r ← runRequest ⟨[], []⟩ s (.ofText u none)
      return bannersAdded r.reports : Except Fault (List Bool)) = .ok [false, true] := by
  decide

end NetlistPrep.Pipeline
