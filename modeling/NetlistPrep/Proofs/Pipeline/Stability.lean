import NetlistPrep.Proofs.Pipeline.Output

/-!
# Running again

Without geometry a run works on its own output like a clean-up: the second run drops the empty lines
of the banners and nothing else, and no later run changes anything.

* `preamble_settledLines`: the output has every title and every section, so nothing comes in front
  again.
* `outputLines_settledLines`: the lines that are not empty are left as they are. Keys are in lower
  case already, and pin-info lines are written anew in the place of those that are there.
* `exists_fixText_forall_again` is the statement about texts.
-/

namespace NetlistPrep.Pipeline

open PinInfo

variable {s : Settings} {cells : Option CellTable} {lines : List Text}

/-- The output lines that are not empty. -/
def settledLines (s : Settings) (cells : Option CellTable) (lines : List Text) : List Text :=
  (preamble s lines).filter (· ≠ []) ++ mergedFor cells (lines.map (fixLine s))

/-! ## Fixed lines -/

theorem fixLine_fixLine (hg : s.geometry = false) (line : Text) :
    fixLine s (fixLine s line) = fixLine s line := by
  rw [fixLine_of_not_geometry hg, lowerLine_fixLine]

theorem fixLine_ne_nil (hg : s.geometry = false) {line : Text} (h : line ≠ []) :
    fixLine s line ≠ [] := by
  rwa [fixLine_of_not_geometry hg, ne_eq, lowerLine_eq_nil_iff]

theorem getLast?_fixLine_ne_return (hg : s.geometry = false) {line : Text}
    (h : line.getLast? ≠ some '\r') : (fixLine s line).getLast? ≠ some '\r' := by
  rwa [fixLine_of_not_geometry hg, ne_eq, getLast?_lowerLine_eq_return_iff]

theorem forall_mem_mergedFor {p : Text → Prop} (hlines : ∀ l ∈ lines, p l)
    (hinfo : ∀ l info, info? (cells.getD .empty) l = some info → p info) :
    ∀ l ∈ mergedFor cells lines, p l := by
  intro l hl
  rw [mergedFor_eq] at hl
  rcases mem_of_mem_merged hl with hl | ⟨l', -, hi⟩
  · exact hlines l hl
  · exact hinfo l' l hi

theorem mem_mergedFor_of_mem {l : Text} (h : l ∈ lines) (hl : ¬ marker <+: l) :
    l ∈ mergedFor cells lines := by
  rw [mergedFor_eq]
  exact mem_merged_of_mem h hl false

/-! ## Nothing comes in front again -/

theorem exists_mem_mergedFor_of_begins {word l : Text} (hl : l ∈ lines) (hword : word <+: l)
    (hblank : ' ' ∉ word) (hne : ¬ marker <+: l) :
    ∃ l' ∈ mergedFor cells (lines.map (fixLine s)), word <+: l' :=
  ⟨fixLine s l, mem_mergedFor_of_mem (List.mem_map_of_mem hl)
    (mt (prefix_fixLine_iff (by decide)).1 hne), (prefix_fixLine_iff hblank).2 hword⟩

/-- A banner is recognised in the output by its title: it stands there because the run put it there
or because it was there before. -/
theorem marker_mem_settledLines {b : Banner} (hb : b.marker ∈ b.lines) (hne : b.marker ≠ [])
    (heq : '=' ∉ b.marker) (hmarker : ¬ marker <+: b.marker)
    (hfront : ∀ l ∈ b.missing lines, l ∈ preamble s lines) :
    b.marker ∈ settledLines s cells lines := by
  by_cases h : b.marker ∈ lines
  · refine List.mem_append_right _ (mem_mergedFor_of_mem (List.mem_map.2 ⟨_, h, ?_⟩) hmarker)
    exact fixLine_of_not_mem heq
  · refine List.mem_append_left _ (List.mem_filter.2 ⟨hfront _ ?_, by simpa using hne⟩)
    rwa [Banner.missing, if_neg h]

theorem begins_settledLines {sec : Section} (h : sec ∈ Section.standard)
    (hs : s.sectionDefaults = true) : sec.Begins (settledLines s cells lines) := by
  have hblank : ∀ sec ∈ Section.standard, ' ' ∉ sec.marker := by decide
  have hne : ∀ sec ∈ Section.standard, sec.defaultLine ≠ [] := by decide
  have hmarker : ∀ sec ∈ Section.standard, ¬ sec.marker <+: marker ∧ ¬ marker <+: sec.marker := by
    decide
  -- The line that begins the section may be any line but a pin-info line, which a merge may drop.
  unfold settledLines
  by_cases hbegins : sec.Begins lines
  · obtain ⟨l, hl, hprefix⟩ := hbegins
    have hl' : ¬ marker <+: l := fun hm =>
      (List.prefix_or_prefix_of_prefix hprefix hm).elim (hmarker sec h).1 (hmarker sec h).2
    refine Section.begins_append.2 (.inr ?_)
    exact exists_mem_mergedFor_of_begins hl hprefix (hblank sec h) hl'
  · refine Section.begins_append.2 (.inl ⟨sec.defaultLine, List.mem_filter.2 ⟨?_, ?_⟩, ?_⟩)
    · have hmissing : sec.defaultLine ∈ Section.missing Section.standard lines :=
        Section.mem_missing_iff.2 ⟨sec, h, hbegins, rfl⟩
      simp [preamble, hs, hmissing]
    · simpa using hne sec h
    · exact Section.defaultLine_standard sec h ▸ List.prefix_refl _

theorem ite_eq_nil {c : Bool} {ts : List Text} (h : c = true → ts = []) :
    (if c then ts else []) = [] := by
  cases c with
  | false => rfl
  | true => exact h rfl

/-- **The output has every title and every section,** so that nothing comes in front again. -/
theorem preamble_settledLines (hname : '=' ∉ s.generatorName) :
    preamble s (settledLines s cells lines) = [] := by
  have hgenerator : s.header = true →
      (Banner.generator s.generatorName).missing (settledLines s cells lines) = [] := by
    intro hh
    exact if_pos (marker_mem_settledLines (by simp [Banner.generator]) title_ne_nil
      (eq_not_mem_title hname) not_marker_prefix_title fun l hl => by simp [preamble, hh, hl])
  have hnetlist : s.header = true →
      Banner.netlist.missing (settledLines s cells lines) = [] := by
    intro hh
    exact if_pos (marker_mem_settledLines (by decide) (by decide) (by decide) (by decide)
      fun l hl => by simp [preamble, hh, hl])
  have hsections : s.sectionDefaults = true →
      (Section.missing Section.standard (settledLines s cells lines)).reverse = [] := by
    intro hs
    rw [List.reverse_eq_nil_iff, Section.missing, List.map_eq_nil_iff, List.filter_eq_nil_iff]
    exact fun sec hsec => by simpa using begins_settledLines hsec hs
  rw [preamble, ite_eq_nil hgenerator, ite_eq_nil hsections, ite_eq_nil hnetlist]
  rfl

/-! ## The lines -/

/-- **The output lines that are not empty are left as they are.** -/
theorem outputLines_settledLines (hg : s.geometry = false) (hname : '=' ∉ s.generatorName) :
    outputLines s cells (settledLines s cells lines) = settledLines s cells lines := by
  have hfront : ∀ l ∈ (preamble s lines).filter (· ≠ []), fixLine s l = l := fun l hl =>
    fixLine_of_mem_preamble hname (List.mem_filter.1 hl).1
  have hinfo : ∀ l ∈ (preamble s lines).filter (· ≠ []), info? (cells.getD .empty) l = none := by
    intro l hl
    rw [← hfront l hl]
    exact info?_of_declared?_eq_none
      (declared?_fixLine_of_mem_preamble (List.mem_filter.1 hl).1)
  have hmap : ((preamble s lines).filter (· ≠ [])).map (fixLine s) =
      (preamble s lines).filter (· ≠ []) := (List.map_congr_left hfront).trans (List.map_id _)
  rw [outputLines_eq hname, preamble_settledLines hname, List.nil_append]
  unfold settledLines
  rw [List.map_append, hmap, mergedFor_eq, mergedFor_eq, merged_append hinfo, merged_map_merged]
  · intro l hl
    obtain ⟨z, -, rfl⟩ := List.mem_map.1 hl
    exact fixLine_fixLine hg z
  · intro l info hi
    exact (prefix_fixLine_iff (by decide)).2 (marker_prefix_of_info? hi)

theorem getLast?_outputLines_ne_return (hg : s.geometry = false) (hname : '=' ∉ s.generatorName)
    (hreturn : '\r' ∉ s.generatorName) (h : ∀ l ∈ lines, l.getLast? ≠ some '\r') :
    ∀ l ∈ outputLines s cells lines, l.getLast? ≠ some '\r' := by
  rw [outputLines_eq hname]
  intro l hl
  rcases List.mem_append.1 hl with hl | hl
  · have hfront : ∀ l ∈ fixedFront, '\r' ∉ l := by decide
    intro hlast
    rcases mem_of_mem_preamble hl with rfl | hl
    · rcases List.mem_append.1 (List.mem_of_getLast? hlast) with hm | hm
      · exact absurd hm (by decide)
      · exact hreturn hm
    · exact hfront l hl (List.mem_of_getLast? hlast)
  · refine forall_mem_mergedFor (p := fun l => l.getLast? ≠ some '\r') ?_ ?_ l hl
    · intro l hl
      obtain ⟨z, hz, rfl⟩ := List.mem_map.1 hl
      exact getLast?_fixLine_ne_return hg (h z hz)
    · exact fun _ _ => getLast?_info_ne_return

theorem filter_outputLines (hg : s.geometry = false) (hname : '=' ∉ s.generatorName)
    (h : ∀ l ∈ lines, l ≠ []) :
    (outputLines s cells lines).filter (· ≠ []) = settledLines s cells lines := by
  rw [outputLines_eq hname, List.filter_append, settledLines]
  congr 1
  rw [List.filter_eq_self]
  have hne : ∀ l ∈ mergedFor cells (lines.map (fixLine s)), l ≠ [] := by
    refine forall_mem_mergedFor ?_ ?_
    · intro l hl
      obtain ⟨z, hz, rfl⟩ := List.mem_map.1 hl
      exact fixLine_ne_nil hg (h z hz)
    · intro _ info hi hnil
      have hmarker := marker_prefix_of_info? hi
      rw [hnil] at hmarker
      exact absurd hmarker (by decide)
  simpa using hne

/-! ## Texts -/

/-- A text without its empty lines. -/
def withoutEmptyLines (t : Text) : Text :=
  ((Text.split (· == '\n') t).filter (· ≠ [])).flatMap (· ++ ['\n'])

def withoutEmpty (n : Netlist) : Netlist := ⟨n.lines.filter (·.text ≠ [])⟩

theorem texts_withoutEmpty (n : Netlist) : (withoutEmpty n).texts = n.texts.filter (· ≠ []) := by
  simp [withoutEmpty, Netlist.texts, List.filter_map, Function.comp_def]

theorem withoutEmptyLines_toText (n : Netlist) :
    withoutEmptyLines n.toText = (withoutEmpty n).toText := by
  rw [withoutEmptyLines, Netlist.toText, Netlist.toText, texts_withoutEmpty,
    Text.split_flatMap_closed fun _ => Netlist.not_newline_of_mem_texts]
  simp

/-- Where no line ends in a carriage return, a netlist is read back from its text up to its empty
lines. -/
theorem body_toText {n : Netlist} (h : ∀ l ∈ n.texts, l.getLast? ≠ some '\r') :
    body n.toText = (withoutEmpty n).texts := by
  have hmap : n.texts.map Text.dropReturn = n.texts :=
    (List.map_congr_left fun l hl => Text.dropReturn_eq_self_iff.2 (h l hl)).trans (List.map_id _)
  rw [body, ← Netlist.texts_ofText, Netlist.texts_ofText_toText, hmap, texts_withoutEmpty]

theorem body_toText_withoutEmpty {n : Netlist} (h : ∀ l ∈ n.texts, l.getLast? ≠ some '\r') :
    body (withoutEmpty n).toText = (withoutEmpty n).texts := by
  have hsub : ∀ l ∈ (withoutEmpty n).texts, l ∈ n.texts ∧ l ≠ [] := by
    intro l hl
    simpa [texts_withoutEmpty] using hl
  rw [body_toText fun l hl => h l (hsub l hl).1, texts_withoutEmpty (withoutEmpty n),
    List.filter_eq_self]
  exact fun l hl => by simpa using (hsub l hl).2

/-- Runs again and again, each time on the text that the run before gave. -/
def fixTextTimes (tree : FileTree) (s : Settings) (cells : Option CellTable) :
    Nat → Text → Except Fault Text
  | 0, t => .ok t
  | k + 1, t => do fixTextTimes tree s cells k (← fixText tree s cells t)

/-- **Running again drops the empty lines once and then changes nothing,** without geometry and for
lines that end in one carriage return at most. -/
theorem exists_fixText_forall_again (tree : FileTree) (t : Text) (s : Settings)
    (cells : Option CellTable) (hgeometry : s.geometry = false) (hdescriptor : s.descriptor = none)
    (hname : '=' ∉ s.generatorName) (hreturn : '\r' ∉ s.generatorName)
    (hports : ∀ table ∈ cells, ∀ e ∈ table.entries, ∀ p ∈ e.2.ports, '\n' ∉ p.name)
    (hlines : ∀ line ∈ Text.split (· == '\n') t, ¬ ['\r', '\r'] <:+ line) :
    ∃ u, fixText tree s cells t = .ok u ∧
      ∀ k, fixTextTimes tree s cells (k + 1) u = .ok (withoutEmptyLines u) := by
  obtain ⟨loaded, hloaded, rfl⟩ :=
    cellsFor_of_no_descriptor tree cells hdescriptor
  obtain ⟨n, hn, htexts⟩ := exists_fixText hloaded (t := t) (infosAreLines_of_ports hports _)
  have hbody : ∀ l ∈ body t, l ≠ [] ∧ l.getLast? ≠ some '\r' := by
    intro l hl
    obtain ⟨hl, hne⟩ := List.mem_filter.1 hl
    obtain ⟨line, hline, rfl⟩ := List.mem_map.1 hl
    exact ⟨by simpa using hne, Text.getLast?_ne_of_not_suffix (hlines line hline)⟩
  have hends : ∀ l ∈ n.texts, l.getLast? ≠ some '\r' := by
    rw [htexts]
    exact getLast?_outputLines_ne_return hgeometry hname hreturn fun l hl => (hbody l hl).2
  have hsettled : (withoutEmpty n).texts = settledLines s (loaded.map (·.cells)) (body t) := by
    rw [texts_withoutEmpty, htexts, filter_outputLines hgeometry hname fun l hl => (hbody l hl).1]
  -- Whatever is read as the settled lines is run to their text.
  have hrun : ∀ w, body w = (withoutEmpty n).texts →
      fixText tree s (loaded.map (·.cells)) w = .ok (withoutEmpty n).toText := by
    intro w hw
    obtain ⟨n', hn', htexts'⟩ := exists_fixText hloaded (t := w) (infosAreLines_of_ports hports _)
    rw [hw, hsettled, outputLines_settledLines hgeometry hname, ← hsettled] at htexts'
    rw [hn', Netlist.ext_texts htexts']
  have hagain : ∀ k, fixTextTimes tree s (loaded.map (·.cells)) k (withoutEmpty n).toText =
      .ok (withoutEmpty n).toText := by
    intro k
    induction k with
    | zero => rfl
    | succ k ih =>
      rw [fixTextTimes, hrun _ (body_toText_withoutEmpty hends)]
      exact ih
  refine ⟨n.toText, hn, fun k => ?_⟩
  rw [fixTextTimes, hrun _ (body_toText hends), withoutEmptyLines_toText]
  exact hagain k

/-- Runs over a line with a key in upper case and a carriage return at its end. -/
theorem exists_fixText_forall_again_resistor :
    ∃ u, fixText ⟨[], []⟩ { geometry := false } none "R1 a b W=1\r\n".toList = .ok u ∧
      ∀ k, fixTextTimes ⟨[], []⟩ { geometry := false } none (k + 1) u =
        .ok (withoutEmptyLines u) :=
  exists_fixText_forall_again ⟨[], []⟩ "R1 a b W=1\r\n".toList { geometry := false } none rfl rfl
    (by decide) (by decide) (by decide) (by decide)

end NetlistPrep.Pipeline
