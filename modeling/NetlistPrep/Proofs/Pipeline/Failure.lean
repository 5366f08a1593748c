import NetlistPrep.Proofs.Arithmetic
import NetlistPrep.Proofs.Descriptor.Names
import NetlistPrep.Proofs.Pipeline.Output

/-!
# When a run fails

A run fails at one place only, where a pin-info line is to be written that is no line because a port
is named with a line feed.

* `exists_info_of_mergePinInfo_eq_error` is the merge: what it is refused for is the pin-info line
  of some declaration.
* `exists_info_of_runPasses_eq_error` is the whole run: the other passes write lines only.
* `infosAreLines_iff` puts the condition in terms of the text that the run gets.
* `fixText_fails_iff` is the run from text to text, with the cells of a descriptor and the
  arithmetic of recovery, which never fail.
-/

namespace NetlistPrep

open PinInfo Outcome

/-! ## The merge -/

namespace Netlist

variable {t : CellTable}

/-- **A walk that fails** was to write a pin-info line that is no line. -/
theorem exists_info_of_mergeFrom_eq_error {done rest : List Line} {s : Stats} {fault : Fault}
    (h : (mergeFrom t done.length s ⟨done ++ rest⟩).2 = .error fault) :
    ∃ l ∈ rest, ∃ info, info? t l.text = some info ∧ '\n' ∈ info ∧ fault = .lineFeed info := by
  induction rest using merge_induction (t := t) generalizing done s with
  | nil =>
    rw [mergeFrom_append_nil] at h
    simp at h
  | none l rest hi ih =>
    rw [mergeFrom_append_of_none hi] at h
    obtain ⟨l', hl', hinfo⟩ := ih h
    exact ⟨l', List.mem_cons_of_mem _ hl', hinfo⟩
  | some l rest text hi ih =>
    by_cases hn : '\n' ∈ text
    · rw [mergeFrom_append_of_newline hi hn] at h
      exact ⟨l, List.mem_cons_self, text, hi, hn, (Except.error.inj h).symm⟩
    · have hinfo : info? t l.text = some (Line.mk text hn).text := hi
      rw [mergeFrom_append_of_some hinfo] at h
      obtain ⟨l', hl', hinfo'⟩ := ih h
      exact ⟨l', List.mem_cons_of_mem _ (mem_of_mem_withoutStale hl'), hinfo'⟩

theorem exists_info_of_mergePinInfo_eq_error {n : Netlist} {fault : Fault}
    (h : (n.mergePinInfo t).2 = .error fault) :
    ∃ l ∈ n.texts, ∃ info, info? t l = some info ∧ '\n' ∈ info ∧ fault = .lineFeed info := by
  have hwalk : (mergeFrom t ([] : List Line).length {} ⟨[] ++ n.lines⟩).2 = .error fault := h
  obtain ⟨l, hl, hinfo⟩ := exists_info_of_mergeFrom_eq_error hwalk
  exact ⟨l.text, List.mem_map_of_mem hl, hinfo⟩

end Netlist

namespace Pipeline

variable {tree : FileTree} {s : Settings} {cells : Option CellTable} {t : Text}

/-! ## The passes -/

/-- **Passes that fail** were to write a pin-info line that is no line. -/
theorem exists_info_of_runPasses_eq_error {n : Netlist} {fault : Fault}
    (h : runPasses n (passes s cells) = .error fault) :
    ∃ l ∈ (preamble s n.texts ++ n.texts).map (fixLine s), ∃ info,
      info? (cells.getD .empty) l = some info ∧ '\n' ∈ info ∧ fault = .lineFeed info := by
  obtain ⟨m, ⟨stages, hrun, -⟩, hmtexts⟩ := exists_leaves_passes_none s n
  cases cells with
  | none =>
    rw [hrun] at h
    simp at h
  | some table =>
    rw [passes_eq, runPasses_append, hrun, ok_bind] at h
    rw [← hmtexts]
    cases hmerge : (m.mergePinInfo table).2 with
    | ok stats =>
      obtain ⟨report, hreport⟩ : ∃ report, (Pass.pinInfo table).run m = .ok report := by
        simp only [Pass.run, Pass.work, hmerge, Except.map]
        exact ⟨_, rfl⟩
      simp [runPasses, hreport, bind, Except.bind, pure, Except.pure] at h
    | error fault' =>
      have hreport : (Pass.pinInfo table).run m = .error fault' := by
        simp [Pass.run, Pass.work, hmerge, Except.map]
      obtain rfl : fault' = fault := by
        simpa [runPasses, hreport, bind, Except.bind] using h
      exact Netlist.exists_info_of_mergePinInfo_eq_error hmerge

/-! ## The condition -/

/-- A line declares a cell that the table knows with a port whose name has a line feed. -/
def DeclaresBroken (table : CellTable) (line : Text) : Prop :=
  ∃ name c, declared? line = some name ∧ table.get? name = some c ∧ ∃ p ∈ c.ports, '\n' ∈ p.name

theorem newline_mem_line_iff (c : Cell) : '\n' ∈ line c ↔ ∃ p ∈ c.ports, '\n' ∈ p.name := by
  constructor
  · intro h
    by_contra hnone
    simp only [not_exists, not_and] at hnone
    exact newline_not_mem_line hnone h
  · rintro ⟨p, hp, hn⟩
    rw [line_eq]
    refine List.mem_append_right _ (List.mem_flatMap.2 ⟨p, hp, ?_⟩)
    simp [token, hn]

theorem declaresBroken_iff (table : CellTable) (line : Text) :
    DeclaresBroken table line ↔ ∃ info, info? table line = some info ∧ '\n' ∈ info := by
  constructor
  · rintro ⟨name, c, hname, hget, p, hp, hn⟩
    exact ⟨PinInfo.line c, info?_eq_some_iff.2 ⟨name, c, hname, hget, List.ne_nil_of_mem hp, rfl⟩,
      (newline_mem_line_iff c).2 ⟨p, hp, hn⟩⟩
  · rintro ⟨info, hi, hn⟩
    obtain ⟨name, c, hname, hget, -, rfl⟩ := info?_eq_some_iff.1 hi
    exact ⟨name, c, hname, hget, (newline_mem_line_iff c).1 hn⟩

theorem declaresBroken_of_declared?_eq {table : CellTable} {a b : Text}
    (h : declared? a = declared? b) : DeclaresBroken table a ↔ DeclaresBroken table b := by
  rw [DeclaresBroken, DeclaresBroken, h]

/-- **Where a run fails,** in terms of the lines that it gets: those of the preamble declare
nothing, and recovered fields do not change what a line declares. -/
theorem infosAreLines_iff (table : CellTable) (lines : List Text) :
    InfosAreLines (some table) ((preamble s lines ++ lines).map (fixLine s)) ↔
      ∀ line ∈ lines, ¬ DeclaresBroken table (lowerLine s line) := by
  constructor
  · intro h line hline hbroken
    rw [← declaresBroken_of_declared?_eq (declared?_fixLine line), declaresBroken_iff] at hbroken
    obtain ⟨info, hi, hn⟩ := hbroken
    exact h _ (List.mem_map_of_mem (List.mem_append_right _ hline)) info hi hn
  · intro h l hl info hi hn
    obtain ⟨line, hline, rfl⟩ := List.mem_map.1 hl
    rcases List.mem_append.1 hline with hline | hline
    · have hnone :=
        info?_of_declared?_eq_none (t := table) (declared?_fixLine_of_mem_preamble hline)
      rw [Option.getD_some, hnone] at hi
      simp at hi
    · refine h line hline ?_
      rw [← declaresBroken_of_declared?_eq (declared?_fixLine line), declaresBroken_iff]
      exact ⟨info, hi, hn⟩

/-! ## From text to text -/

theorem fixText_eq_error_iff_of_no_descriptor (hdescriptor : s.descriptor = none) {fault : Fault} :
    fixText tree s cells t = .error fault ↔
      runPasses (Netlist.ofText t) (passes s cells) = .error fault := by
  obtain ⟨loaded, hloaded, rfl⟩ := cellsFor_of_no_descriptor tree cells hdescriptor
  rw [fixText, runRequest_ofText, hloaded]
  simp only [ok_bind, run]
  cases runPasses (Netlist.ofText t) (passes s (loaded.map (·.cells))) with
  | ok r => simp [bind, Except.bind, pure, Except.pure]
  | error fault' => simp [bind, Except.bind]

theorem exists_fixText_of_ports (tree : FileTree) (s : Settings) (cells : Option CellTable)
    (t : Text) (hdescriptor : s.descriptor = none)
    (hports : ∀ table ∈ cells, ∀ e ∈ table.entries, ∀ p ∈ e.2.ports, '\n' ∉ p.name) :
    ∃ u, fixText tree s cells t = .ok u := by
  obtain ⟨loaded, hloaded, rfl⟩ := cellsFor_of_no_descriptor tree cells hdescriptor
  obtain ⟨n, hn, -⟩ := exists_fixText (t := t) hloaded (infosAreLines_of_ports hports _)
  exact ⟨n.toText, hn⟩

/-- The fault is that of the pin-info line that is no line. -/
theorem exists_line_of_fixText_eq_error (hdescriptor : s.descriptor = none) {fault : Fault}
    (h : fixText tree s cells t = .error fault) :
    ∃ table name c, cells = some table ∧ table.get? name = some c ∧
      fault = .lineFeed (PinInfo.line c) := by
  rw [fixText_eq_error_iff_of_no_descriptor hdescriptor] at h
  obtain ⟨l, -, info, hi, -, rfl⟩ := exists_info_of_runPasses_eq_error h
  obtain ⟨table, rfl, hi⟩ := exists_table_of_info? hi
  obtain ⟨name, c, -, hget, -, rfl⟩ := info?_eq_some_iff.1 hi
  exact ⟨table, name, c, rfl, hget, rfl⟩

theorem exists_declaresBroken_of_fixText_eq_error (hdescriptor : s.descriptor = none)
    {fault : Fault} (h : fixText tree s cells t = .error fault) :
    ∃ table, cells = some table ∧ ∃ line ∈ body t, DeclaresBroken table (lowerLine s line) := by
  obtain ⟨table, -, -, rfl, -⟩ := exists_line_of_fixText_eq_error hdescriptor h
  refine ⟨table, rfl, ?_⟩
  by_contra hnone
  simp only [not_exists, not_and] at hnone
  obtain ⟨loaded, hloaded, hcells⟩ := cellsFor_of_no_descriptor tree (some table) hdescriptor
  have hinfos := (infosAreLines_iff table (body t)).2 hnone
  rw [← hcells] at hinfos
  obtain ⟨n, hn, -⟩ := exists_fixText hloaded hinfos
  rw [h] at hn
  simp at hn

theorem exists_fixText_eq_error_of_declaresBroken (tree : FileTree) {table : CellTable}
    {line : Text} (hline : line ∈ body t) (hbroken : DeclaresBroken table (lowerLine s line)) :
    ∃ fault, fixText tree s (some table) t = .error fault := by
  cases hrun : fixText tree s (some table) t with
  | error fault => exact ⟨fault, rfl⟩
  | ok u =>
    obtain ⟨loaded, hloaded, hinfos, -⟩ := body_of_fixText_eq_ok hrun
    obtain rfl : loaded = some { cells := table } := (Except.ok.inj hloaded).symm
    exact absurd hbroken ((infosAreLines_iff table (body t)).1 hinfos line hline)

/-- **A run for a text fails exactly where** some line of the text, its keys lowered if the settings
ask for it, declares a cell that is given with a port whose name has a line feed. The fault is that
of a pin-info line that is no line. So no run fails without cells, nor with the cells of any
descriptor; and recovery, whose arithmetic gives every quotient and root a value, needs none that is
not defined. -/
theorem fixText_fails_iff (tree : FileTree) (t : Text) (s : Settings) (cells : Option CellTable)
    (hdescriptor : s.descriptor = none) :
    ((∃ fault, fixText tree s cells t = .error fault) ↔
        ∃ table, cells = some table ∧ ∃ line ∈ body t, DeclaresBroken table (lowerLine s line)) ∧
      (∀ fault, fixText tree s cells t = .error fault →
        fault.toClass = .invalid ∧ ∃ table name c, cells = some table ∧ table.get? name = some c ∧
          fault = .lineFeed (PinInfo.line c)) ∧
      (∃ u, fixText tree s none t = .ok u) ∧
      (∀ descriptor, ∃ u, fixText tree s (some (Descriptor.parse descriptor)) t = .ok u) ∧
      ∀ line, Recovery.ofLineDefined line = .ok (Recovery.ofLine line) := by
  refine ⟨⟨?_, ?_⟩, ?_, ?_, ?_, Recovery.ofLineDefined_eq⟩
  · rintro ⟨fault, h⟩
    exact exists_declaresBroken_of_fixText_eq_error hdescriptor h
  · rintro ⟨table, rfl, line, hline, hbroken⟩
    exact exists_fixText_eq_error_of_declaresBroken tree hline hbroken
  · intro fault h
    obtain ⟨table, name, c, hcells, hget, rfl⟩ := exists_line_of_fixText_eq_error hdescriptor h
    exact ⟨rfl, table, name, c, hcells, hget, rfl⟩
  · exact exists_fixText_of_ports tree s none t hdescriptor (by simp)
  · intro descriptor
    refine exists_fixText_of_ports tree s _ t hdescriptor fun table htable e he p hp => ?_
    obtain rfl := Option.some.inj htable
    exact (Descriptor.plain_of_mem_parse he hp).newline_not_mem

/-- A run that fails at a name which the line declares only once its keys are in small letters. -/
theorem fixText_fails_lowered_name :
    ∃ fault, fixText ⟨[], []⟩ {}
        (some (.ofList [("w=1".toList, ⟨"INV".toList, [⟨"A\nB".toList, .input⟩]⟩)]))
        "R1 a b\n.SUBCKT W=1 A\n".toList = .error fault ∧ fault.toClass = .invalid := by
  obtain ⟨hiff, hclass, -⟩ :=
    fixText_fails_iff ⟨[], []⟩ "R1 a b\n.SUBCKT W=1 A\n".toList {}
      (some (.ofList [("w=1".toList, ⟨"INV".toList, [⟨"A\nB".toList, .input⟩]⟩)])) rfl
  have hbroken : DeclaresBroken
      (.ofList [("w=1".toList, ⟨"INV".toList, [⟨"A\nB".toList, .input⟩]⟩)])
      (lowerLine {} ".SUBCKT W=1 A".toList) :=
    ⟨"w=1".toList, ⟨"INV".toList, [⟨"A\nB".toList, .input⟩]⟩, by decide, by decide,
      ⟨"A\nB".toList, .input⟩, by decide, by decide⟩
  obtain ⟨fault, hfault⟩ := hiff.2 ⟨_, rfl, ".SUBCKT W=1 A".toList, by decide, hbroken⟩
  exact ⟨fault, hfault, (hclass fault hfault).1⟩

end Pipeline

end NetlistPrep
