import NetlistPrep.Proofs.Descriptor.Layout
import NetlistPrep.Proofs.Pipeline.Output

/-!
# Line ends and empty lines

A text may be laid out with other line ends and with empty lines anywhere between its lines, in
front of them and behind them (`Relaid`). Without carriage returns of its own, that leaves it the
lines that are not empty (`Relaid.filter_lines_eq`), and a run looks at no more of a netlist
(`fixText_congr`), nor the reader of a descriptor.
-/

namespace NetlistPrep

namespace Text

open Descriptor

/-- `Relaid t t'` says that `t'` has the lines of `t`, each with either line end, and empty lines
put in. The rule `skip` puts in an empty line in front of what is to come. -/
inductive Relaid : Text → Text → Prop
  | same (t : Text) : Relaid t t
  | skip {e : Text} (he : e ∈ lineEnds) {t t' : Text} (h : Relaid t t') : Relaid t (e ++ t')
  | line {l e : Text} (hl : '\n' ∉ l) (he : e ∈ lineEnds) {t t' : Text} (h : Relaid t t') :
    Relaid (l ++ ['\n'] ++ t) (l ++ e ++ t')
  /-- The last line, which ended with the text, gets a line end and empty lines behind it. -/
  | close {l e : Text} (hl : '\n' ∉ l) (he : e ∈ lineEnds) {t' : Text} (h : Relaid [] t') :
    Relaid l (l ++ e ++ t')

variable {t t' : Text}

theorem lines_append_of_return_not_mem {l e : Text} (hl : '\n' ∉ l) (hr : '\r' ∉ l)
    (he : e ∈ lineEnds) (t : Text) : lines (l ++ e ++ t) = l :: lines t := by
  obtain ⟨l', hlines, rfl | rfl⟩ := exists_lines_append hl he t
  · exact hlines
  · rw [hlines, dropReturn_of_return_not_mem hr]

/-- **A text without carriage returns keeps its lines that are not empty.** -/
theorem Relaid.filter_lines_eq (h : Relaid t t') (hreturn : '\r' ∉ t) :
    (lines t').filter (· ≠ []) = (lines t).filter (· ≠ []) := by
  induction h with
  | same t => rfl
  | @skip e he t t' _ ih =>
    have hlines := lines_append_of_return_not_mem (l := []) (by simp) (by simp) he t'
    rw [List.nil_append] at hlines
    rw [hlines, List.filter_cons_of_neg (by simp), ih hreturn]
  | @line l e hl he t t' _ ih =>
    obtain ⟨hfirst, hrest⟩ : '\r' ∉ l ∧ '\r' ∉ t := by simpa using hreturn
    rw [lines_append_of_return_not_mem hl hfirst he,
      lines_append_of_return_not_mem hl hfirst (by decide), List.filter_cons, List.filter_cons,
      ih hrest]
  | @close l e hl he t' _ ih =>
    have hempty : (lines t').filter (· ≠ []) = [] := ih (by simp)
    rw [lines_append_of_return_not_mem hl hreturn he, lines_of_newline_not_mem hl,
      dropReturn_of_return_not_mem hreturn, List.filter_cons, List.filter_cons, hempty,
      List.filter_nil]

end Text

namespace Pipeline

open Outcome Text

variable {tree : FileTree} {s : Settings} {cells : Option CellTable} {t t' d d' : Text}

/-- **A run depends on the lines of a text that are not empty,** and on nothing else of it. -/
theorem fixText_congr (h : body t = body t') :
    fixText tree s cells t = fixText tree s cells t' := by
  have hnetlist : Netlist.ofText t = Netlist.ofText t' :=
    Netlist.ext_texts (by rw [Netlist.texts_ofText, Netlist.texts_ofText]; exact h)
  rw [fixText, fixText, runRequest_ofText, runRequest_ofText, hnetlist]
  cases cellsFor tree s cells with
  | error fault => rfl
  | ok loaded =>
    simp only [ok_bind, run]
    cases runPasses (Netlist.ofText t') (passes s (loaded.map (·.cells))) with
    | error fault => rfl
    | ok r => rfl

/-- A run with the cells of a descriptor succeeds. -/
theorem exists_fixText_parse (tree : FileTree) (s : Settings) (t d : Text) :
    ∃ u, fixText tree s (some (Descriptor.parse d)) t = .ok u := by
  have hcells : cellsFor tree s (some (Descriptor.parse d)) =
      .ok (some { cells := Descriptor.parse d }) := rfl
  have hports : ∀ table ∈ some (Descriptor.parse d), ∀ e ∈ table.entries, ∀ p ∈ e.2.ports,
      '\n' ∉ p.name := by
    rintro _ ⟨⟩ e he p hp
    exact (Descriptor.plain_of_mem_parse he hp).newline_not_mem
  obtain ⟨n, hn, -⟩ := exists_fixText (t := t) hcells (infosAreLines_of_ports hports _)
  exact ⟨n.toText, hn⟩

/-- **Line ends and empty lines do not matter.** A netlist and a descriptor without carriage returns
may be laid out with either line end at every line and with empty lines put in. The cells are the
same, and a run with any settings gives the same text. -/
theorem exists_fixText_relaid (tree : FileTree) (s : Settings) (ht : '\r' ∉ t) (hd : '\r' ∉ d)
    (hnetlist : Relaid t t') (hdescriptor : Relaid d d') :
    Descriptor.parse d' = Descriptor.parse d ∧
      ∃ u, fixText tree s (some (Descriptor.parse d)) t = .ok u ∧
        fixText tree s (some (Descriptor.parse d')) t' = .ok u := by
  have hcells : Descriptor.parse d' = Descriptor.parse d :=
    Descriptor.parse_congr (hdescriptor.filter_lines_eq hd)
  obtain ⟨u, hu⟩ := exists_fixText_parse tree s t d
  refine ⟨hcells, u, hu, ?_⟩
  rw [hcells, fixText_congr (hnetlist.filter_lines_eq ht), hu]

/-- Both texts begin with an empty line, have line ends of both kinds and another empty line inside,
and the netlist, which had no line end behind its last line, gets one. -/
theorem exists_fixText_relaid_mixed :
    let t := "R1 a b W=1\n.SUBCKT INV A".toList
    let t' := "\r\nR1 a b W=1\r\n\n.SUBCKT INV A\r\n".toList
    let d := "INV:\n    A:\n      direction: in\n".toList
    let d' := "\nINV:\r\n\r\n    A:\n      direction: in\r\n".toList
    Relaid t t' ∧ Relaid d d' ∧ Descriptor.parse d' = Descriptor.parse d ∧
      ∃ u, fixText ⟨[], []⟩ {} (some (Descriptor.parse d)) t = .ok u ∧
        fixText ⟨[], []⟩ {} (some (Descriptor.parse d')) t' = .ok u := by
  intro t t' d d'
  have hfeed : ['\n'] ∈ Descriptor.lineEnds := by decide
  have hreturn : ['\r', '\n'] ∈ Descriptor.lineEnds := by decide
  have hnetlist : Relaid t t' := by
    have hlast : Relaid ".SUBCKT INV A".toList ".SUBCKT INV A\r\n".toList :=
      .close (by decide) hreturn (.same [])
    have hfirst : '\n' ∉ "R1 a b W=1".toList := by decide
    exact .skip hreturn (.line hfirst hreturn (.skip hfeed hlast))
  have hdescriptor : Relaid d d' := by
    have hlast : Relaid "      direction: in\n".toList "      direction: in\r\n".toList :=
      .line (l := "      direction: in".toList) (by decide) hreturn (.same [])
    have hcell : '\n' ∉ "INV:".toList := by decide
    have hport : '\n' ∉ "    A:".toList := by decide
    exact .skip hfeed (.line hcell hreturn (.skip hreturn (.line hport hfeed hlast)))
  exact ⟨hnetlist, hdescriptor,
    exists_fixText_relaid ⟨[], []⟩ {} (by decide) (by decide) hnetlist hdescriptor⟩

end Pipeline

end NetlistPrep
