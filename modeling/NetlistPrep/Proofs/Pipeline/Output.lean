import NetlistPrep.Proofs.Pipeline.Run
import NetlistPrep.Proofs.Text.Split

/-!
# The output of a run

The text that a run gives, as a function of the lines of the text that it gets.

* `outputLines` are its lines. `exists_runRequest_ofText` and `of_runRequest_ofText_eq_ok` say when
  a run succeeds and that it gives them.
* `outputLines_eq` takes them apart into preamble and netlist, for a generator name without an
  equals sign: the lines of the preamble go through every pass unchanged.
* `exists_fixText_eq_preamble_append` is the closed form of the run from text to text.
-/

namespace NetlistPrep.Pipeline

open Outcome PinInfo

/-- The lines of a text that are not empty. -/
def body (t : Text) : List Text := (Text.lines t).filter (· ≠ [])

/-- The lines that a run leaves of lines. -/
def outputLines (s : Settings) (cells : Option CellTable) (lines : List Text) : List Text :=
  mergedFor cells ((preamble s lines ++ lines).map (fixLine s))

/-! ## Requests for a text -/

theorem runRequest_ofText (tree : FileTree) (s : Settings) (cells : Option CellTable) (t : Text) :
    runRequest tree s (.ofText t cells) = do
      let loaded ← cellsFor tree s cells
      let result ← run s (some t) (loaded.map (·.cells)) (Netlist.ofText t)
      return { result with records := (loaded.map (·.records)).getD [] ++ result.records } := by
  cases cells <;> rfl

variable {tree : FileTree} {s : Settings} {cells : Option CellTable} {t : Text}

/-- **A run for a text succeeds** where the cells can be had and every pin-info line to be written
is a line. -/
theorem exists_runRequest_ofText {loaded : Option Descriptor.Loaded}
    (hcells : cellsFor tree s cells = .ok loaded)
    (h : InfosAreLines (loaded.map (·.cells)) ((preamble s (body t) ++ body t).map (fixLine s))) :
    ∃ r, runRequest tree s (.ofText t cells) = .ok r ∧
      r.netlist.texts = outputLines s (loaded.map (·.cells)) (body t) ∧
      r.text = r.netlist.toText ∧ bannersAdded r.reports = missingBanners s (body t) := by
  have hbody : (Netlist.ofText t).texts = body t := Netlist.texts_ofText t
  rw [← hbody] at h ⊢
  obtain ⟨m, ⟨stages, hrun, hadded⟩, htexts⟩ := exists_leaves_passes s h
  rw [runRequest_ofText, hcells]
  simp only [run, hrun, bind, Except.bind, pure, Except.pure]
  exact ⟨_, rfl, htexts, rfl, hadded⟩

/-- **A run for a text succeeds only there.** -/
theorem of_runRequest_ofText_eq_ok {r : Result}
    (h : runRequest tree s (.ofText t cells) = .ok r) :
    ∃ loaded, cellsFor tree s cells = .ok loaded ∧
      InfosAreLines (loaded.map (·.cells)) ((preamble s (body t) ++ body t).map (fixLine s)) := by
  rw [runRequest_ofText] at h
  obtain ⟨loaded, hloaded, h⟩ := bind_eq_ok_iff.1 h
  obtain ⟨result, hresult, -⟩ := bind_eq_ok_iff.1 h
  obtain ⟨_, hrun, -⟩ := bind_eq_ok_iff.1 hresult
  refine ⟨loaded, hloaded, ?_⟩
  have := infosAreLines_of_runPasses_eq_ok hrun
  rwa [Netlist.texts_ofText] at this

/-! ## The lines of the preamble -/

/-- The lines that a preamble may have apart from the title of the generator banner. -/
def fixedFront : List Text :=
  [[], Banner.rule, "* CDL parameter".toList, "* CDL netlist".toList]
    ++ Section.standard.map (·.defaultLine)

theorem mem_of_mem_preamble {lines : List Text} {l : Text} (h : l ∈ preamble s lines) :
    l = title s ∨ l ∈ fixedFront := by
  unfold preamble at h
  rw [List.mem_append, List.mem_append] at h
  rcases h with (h | h) | h
  · have h := Banner.mem_of_mem_missing (mem_of_mem_ite h)
    simp only [Banner.generator, List.mem_cons, List.not_mem_nil, or_false] at h
    rcases h with rfl | rfl | rfl | rfl | rfl
    · exact .inr (by decide)
    · exact .inl rfl
    · exact .inr (by decide)
    · exact .inr (by decide)
    · exact .inr (by decide)
  · obtain ⟨sec, hsec, -, rfl⟩ :=
      Section.mem_missing_iff.1 (List.mem_reverse.1 (mem_of_mem_ite h))
    exact .inr (List.mem_append_right _ (List.mem_map_of_mem hsec))
  · have hlines : ∀ l ∈ Banner.netlist.lines, l ∈ fixedFront := by decide
    exact .inr (hlines l (Banner.mem_of_mem_missing (mem_of_mem_ite h)))

theorem eq_not_mem_fixedFront : ∀ l ∈ fixedFront, '=' ∉ l := by decide

theorem declared?_fixedFront : ∀ l ∈ fixedFront, declared? l = none := by decide

theorem declared?_fixLine_of_mem_preamble {lines : List Text} {l : Text}
    (h : l ∈ preamble s lines) : declared? (fixLine s l) = none := by
  rcases mem_of_mem_preamble h with rfl | h
  · have hstar : ['*'] <+: fixLine s (title s) :=
      (prefix_fixLine_iff (by decide)).2 (List.prefix_append ['*'] _)
    obtain ⟨r, hr⟩ := hstar
    rw [← hr]
    exact declared?_cons_star r
  · rw [fixLine_of_not_mem (eq_not_mem_fixedFront l h), declared?_fixedFront l h]

theorem eq_not_mem_title (h : '=' ∉ s.generatorName) : '=' ∉ title s := by
  rw [title, Banner.generator, List.mem_append, not_or]
  exact ⟨by decide, h⟩

theorem title_ne_nil : title s ≠ [] := by
  simp [title, Banner.generator]

theorem not_marker_prefix_title : ¬ marker <+: title s := fun h =>
  (List.prefix_or_prefix_of_prefix h (List.prefix_append _ _)).elim (by decide) (by decide)

theorem fixLine_of_mem_preamble (h : '=' ∉ s.generatorName) {lines : List Text} {l : Text}
    (hl : l ∈ preamble s lines) : fixLine s l = l := by
  rcases mem_of_mem_preamble hl with rfl | hl
  · exact fixLine_of_not_mem (eq_not_mem_title h)
  · exact fixLine_of_not_mem (eq_not_mem_fixedFront l hl)

/-- **The preamble comes out as it went in** where the generator name has no equals sign, and the
netlist comes behind it: its lines fixed and merged. -/
theorem outputLines_eq (h : '=' ∉ s.generatorName) (lines : List Text) :
    outputLines s cells lines =
      preamble s lines ++ mergedFor cells (lines.map (fixLine s)) := by
  have hfront : (preamble s lines).map (fixLine s) = preamble s lines :=
    List.map_congr_left (fun l hl => fixLine_of_mem_preamble h hl) |>.trans (List.map_id _)
  rw [outputLines, List.map_append, hfront, mergedFor_eq, mergedFor_eq, merged_append]
  intro l hl
  refine info?_of_declared?_eq_none ?_
  rw [← fixLine_of_mem_preamble h hl]
  exact declared?_fixLine_of_mem_preamble hl

/-! ## From text to text -/

theorem fixText_eq_ok_iff {u : Text} :
    fixText tree s cells t = .ok u ↔
      ∃ r, runRequest tree s (.ofText t cells) = .ok r ∧ r.text = u := by
  rw [fixText, bind_eq_ok_iff]
  simp [pure, Except.pure]

theorem exists_fixText {loaded : Option Descriptor.Loaded}
    (hcells : cellsFor tree s cells = .ok loaded)
    (h : InfosAreLines (loaded.map (·.cells)) ((preamble s (body t) ++ body t).map (fixLine s))) :
    ∃ n : Netlist, fixText tree s cells t = .ok n.toText ∧
      n.texts = outputLines s (loaded.map (·.cells)) (body t) := by
  obtain ⟨r, hr, htexts, htext, -⟩ := exists_runRequest_ofText hcells h
  exact ⟨r.netlist, fixText_eq_ok_iff.2 ⟨r, hr, htext⟩, htexts⟩

/-- A text that a run gives is read back as the output lines, those without anything in them and the
carriage returns at the ends of the others left out. -/
theorem body_of_fixText_eq_ok {u : Text} (h : fixText tree s cells t = .ok u) :
    ∃ loaded, cellsFor tree s cells = .ok loaded ∧
      InfosAreLines (loaded.map (·.cells)) ((preamble s (body t) ++ body t).map (fixLine s)) ∧
      body u = ((outputLines s (loaded.map (·.cells)) (body t)).map Text.dropReturn).filter
        (· ≠ []) := by
  obtain ⟨r, hr, -⟩ := fixText_eq_ok_iff.1 h
  obtain ⟨loaded, hcells, hinfos⟩ := of_runRequest_ofText_eq_ok hr
  obtain ⟨n, hn, htexts⟩ := exists_fixText hcells hinfos
  obtain rfl : n.toText = u := Except.ok.inj (hn.symm.trans h)
  refine ⟨loaded, hcells, hinfos, ?_⟩
  rw [← htexts, ← Netlist.texts_ofText_toText, Netlist.texts_ofText, body]

theorem cellsFor_of_no_descriptor (tree : FileTree) (cells : Option CellTable)
    (h : s.descriptor = none) :
    ∃ loaded, cellsFor tree s cells = .ok loaded ∧ loaded.map (·.cells) = cells := by
  cases cells with
  | none => exact ⟨none, by simp [cellsFor, h], rfl⟩
  | some table => exact ⟨some { cells := table }, rfl, rfl⟩

theorem infosAreLines_of_ports
    (h : ∀ table ∈ cells, ∀ e ∈ table.entries, ∀ p ∈ e.2.ports, '\n' ∉ p.name)
    (lines : List Text) : InfosAreLines cells lines := by
  intro l _ info hi
  obtain ⟨table, rfl, hi⟩ := exists_table_of_info? hi
  exact newline_not_mem_info (h table rfl) hi

/-- **The closed form of the run from text to text,** for settings that name no descriptor: it gives
the netlist whose lines are the preamble and, behind it, the lines of the text that are not empty,
each of them fixed, with the pin information merged in. -/
theorem exists_fixText_eq_preamble_append (tree : FileTree) (t : Text) (s : Settings)
    (cells : Option CellTable) (hdescriptor : s.descriptor = none) (hname : '=' ∉ s.generatorName)
    (hports : ∀ table ∈ cells, ∀ e ∈ table.entries, ∀ p ∈ e.2.ports, '\n' ∉ p.name) :
    ∃ n : Netlist, fixText tree s cells t = .ok n.toText ∧
      n.texts = preamble s (body t) ++ mergedFor cells ((body t).map (fixLine s)) := by
  obtain ⟨loaded, hloaded, rfl⟩ :=
    cellsFor_of_no_descriptor tree cells hdescriptor
  obtain ⟨n, hn, htexts⟩ := exists_fixText hloaded (infosAreLines_of_ports hports _)
  exact ⟨n, hn, by rw [htexts, outputLines_eq hname]⟩

/-- A run with a header over a declaration whose pin-info line is out of date. -/
theorem exists_fixText_inverter :
    ∃ n : Netlist,
      fixText ⟨[], []⟩ { sectionDefaults := false, geometry := false }
        (some (.ofList [("INV".toList, ⟨"INV".toList, [⟨"A".toList, .input⟩]⟩)]))
        ".SUBCKT INV A\n*.PININFO A:O\nM1 A W=1u\n".toList = .ok n.toText ∧
      n.texts = (Banner.generator Banner.defaultGenerator).lines ++ Banner.netlist.lines ++
        [".SUBCKT INV A", "*.PININFO A:I", "M1 A w=1u"].map (·.toList) := by
  obtain ⟨n, hn, htexts⟩ :=
    exists_fixText_eq_preamble_append ⟨[], []⟩ ".SUBCKT INV A\n*.PININFO A:O\nM1 A W=1u\n".toList
      { sectionDefaults := false, geometry := false }
      (some (.ofList [("INV".toList, ⟨"INV".toList, [⟨"A".toList, .input⟩]⟩)]))
      rfl (by decide) (by decide)
  exact ⟨n, hn, htexts.trans (by decide)⟩

end NetlistPrep.Pipeline
