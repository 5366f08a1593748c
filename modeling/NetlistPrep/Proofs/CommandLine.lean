import NetlistPrep.CommandLine
import NetlistPrep.Proofs.FileTree
import NetlistPrep.Proofs.Pipeline.Output
import NetlistPrep.Proofs.Text.Wide

/-!
# Runs from the command line

A run over a tree of files does all of its work or nothing, with one exception: a fixed text with
surrogates is no text for a file, and that shows only when the output file was opened and is empty.

* `Host.fixed` is what a run is to write, and `map_fst_work` says that the work between reading and
  writing comes to it.
* `Host.ends_run` lists how a run ends, and `Host.code_run_eq_zero_iff` says when it succeeds.
* `Host.run_all_or_breaks_off` puts that in terms of the exit code. The output may be the file of
  the netlist or of the descriptor. Where the standard input is read strictly, where it is UTF-8,
  and where a file is read instead, a run never breaks off.
-/

namespace NetlistPrep.CommandLine

open Outcome WideText

variable {tree : FileTree} {o : Options} {s : Settings} {cells : Option CellTable}

/-! ## The work between reading and writing -/

/-- The descriptor that settings name, read from a tree. -/
def loadedIn (tree : FileTree) (s : Settings) : Except Fault (Option Descriptor.Loaded) :=
  s.descriptor.mapM fun p => Descriptor.load tree p.text p

/-- What the whole run gives for the netlist that options name, with the settings that they mean and
the cells of the descriptor that they name. -/
def Host.fixed (h : Host) (tree : FileTree) (stdin : Octets) (o : Options) :
    Except Fault WideText := do
  let text ← h.inputText tree stdin o
  let s ← o.settings
  let loaded ← loadedIn tree s
  Pipeline.fixWide tree s (loaded.map (·.cells)) text

theorem descriptor_of_settings_eq_ok (h : o.settings = .ok s) :
    o.descriptor = s.descriptor.map .path := by
  unfold Options.settings Options.descriptorPath at h
  cases hd : o.descriptor with
  | none =>
    rw [hd] at h
    cases h
    rfl
  | some v =>
    rw [hd] at h
    cases v with
    | path p =>
      cases h
      rfl
    | nothing => cases h

/-- The program reads the descriptor that settings name, and before it knows the settings. -/
theorem loadedFrom_of_settings_eq_ok (h : o.settings = .ok s) :
    loadedFrom s (o.descriptor.map (·.read tree)) = loadedIn tree s := by
  unfold loadedFrom loadedIn
  rw [descriptor_of_settings_eq_ok h]
  cases s.descriptor with
  | none => rfl
  | some p =>
    simp only [Option.map_some, SlotValue.read, Option.mapM_some, Descriptor.load]
    cases TextFile.read tree p.text p <;> rfl

theorem descriptor_eq_none_of_loadedIn {loaded : Option Descriptor.Loaded}
    (h : loadedIn tree s = .ok loaded) (hnone : loaded.map (·.cells) = none) :
    s.descriptor = none := by
  obtain rfl := Option.map_eq_none_iff.1 hnone
  cases hd : s.descriptor with
  | none => rfl
  | some p =>
    rw [loadedIn, hd] at h
    obtain ⟨l, -, hsome⟩ := bind_eq_ok_iff.1 h
    cases hsome

/-- Where there is nothing to be loaded, the cells of a run are those it is given. -/
theorem exists_cellsFor_eq_ok (tree : FileTree) (h : cells = none → s.descriptor = none) :
    ∃ loaded, Pipeline.cellsFor tree s cells = .ok loaded ∧ loaded.map (·.cells) = cells := by
  cases cells with
  | none => exact Pipeline.cellsFor_of_no_descriptor tree none (h rfl)
  | some table => exact ⟨_, rfl, rfl⟩

theorem fixText_eq_map_run (h : cells = none → s.descriptor = none) (t : Text) :
    Pipeline.fixText tree s cells t =
      (Pipeline.run s (some t) cells (Netlist.ofText t)).map (·.text) := by
  obtain ⟨loaded, hloaded, rfl⟩ := exists_cellsFor_eq_ok tree h
  rw [Pipeline.fixText, Pipeline.runRequest_ofText, hloaded]
  cases hrun : Pipeline.run s (some t) (loaded.map (·.cells)) (Netlist.ofText t) <;>
    simp [hrun, bind, Except.bind, pure, Except.pure, Except.map]

theorem fixWide_eq_map_runWide (h : cells = none → s.descriptor = none) (w : WideText) :
    Pipeline.fixWide tree s cells w = (Pipeline.runWide s w cells).map (·.text) := by
  unfold Pipeline.fixWide Pipeline.runWide
  cases toText? w with
  | some t =>
    simp only [fixText_eq_map_run h]
    cases Pipeline.run s (some t) cells (Netlist.ofText t) <;> rfl
  | none =>
    obtain ⟨loaded, hloaded, rfl⟩ := exists_cellsFor_eq_ok tree h
    have hnone : loaded.map (·.cells.standIn) = none → s.descriptor = none := fun hl =>
      h (by rw [Option.map_eq_none_iff] at hl ⊢; exact hl)
    simp only [hloaded, ok_bind, fixText_eq_map_run hnone, Option.map_map, Function.comp_def]
    cases Pipeline.run s (some (standIn w)) (loaded.map (·.cells.standIn))
      (Netlist.ofText (standIn w)) <;> rfl

/-- **The work gives the fixed text,** or the fault for which there is none. -/
theorem map_fst_work (h : Host) (tree : FileTree) (stdin : Octets) (o : Options) :
    (work o (h.inputText tree stdin o) (o.descriptor.map (·.read tree))).map (·.1) =
      h.fixed tree stdin o := by
  unfold work Host.fixed
  cases h.inputText tree stdin o with
  | error f => rfl
  | ok text =>
    cases hsettings : o.settings with
    | error f => rfl
    | ok s =>
      simp only [loadedFrom_of_settings_eq_ok hsettings, bind, Except.bind]
      cases hloaded : loadedIn tree s with
      | error f => rfl
      | ok loaded =>
        simp only [fixWide_eq_map_runWide (descriptor_eq_none_of_loadedIn hloaded)]
        cases Pipeline.runWide s text (loaded.map (·.cells)) <;> rfl

namespace Host

variable {h : Host} {stdin : Octets} {env : Option Text} {words : List Text} {after : FileTree}
  {w : WideText}

theorem fixed_eq_ok_iff :
    h.fixed tree stdin o = .ok w ↔ ∃ records,
      work o (h.inputText tree stdin o) (o.descriptor.map (·.read tree)) = .ok (w, records) := by
  rw [← map_fst_work, map_eq_ok_iff]
  refine ⟨fun ⟨result, hwork, htext⟩ => ⟨result.2, ?_⟩, fun ⟨records, hwork⟩ => ⟨_, hwork, rfl⟩⟩
  rw [hwork, ← htext]

/-! ## How a run ends -/

/-- The options of a run that is asked for and may begin, with the text that it is to write. -/
structure Fixes (h : Host) (tree : FileTree) (stdin : Octets) (env : Option Text)
    (words : List Text) (o : Options) (w : WideText) : Prop where
  asked : Options.ofWords h.edition words = .run o
  level : Logging.refuses env o.level = false
  fixed : h.fixed tree stdin o = .ok w

/-- A run breaks off with a tree: it has a text to write that is no text for a file, and could open
the file for it, which is empty then. -/
def BreaksOff (h : Host) (tree : FileTree) (stdin : Octets) (env : Option Text)
    (words : List Text) (after : FileTree) : Prop :=
  ∃ o w p, h.Fixes tree stdin env words o w ∧ toText? w = none ∧ o.output = some (.path p) ∧
    TextFile.write tree p.text p [] = .ok after

/-- The ends of a run: what it leaves of a tree, and its exit. -/
inductive Ends (h : Host) (tree : FileTree) (stdin : Octets) (env : Option Text)
    (words : List Text) : FileTree → Exit WideText → Prop
  | failed {e : Exit WideText} (code : e.code ≠ 0) (stdout : e.stdout = []) :
    Ends h tree stdin env words tree e
  | help {stderr : Option Text} (asked : Options.ofWords h.edition words = .help) :
    Ends h tree stdin env words tree ⟨0, ofText help, stderr⟩
  | printed {o : Options} {w : WideText} {stderr : Option Text}
    (fixes : h.Fixes tree stdin env words o w) (output : o.output = none) :
    Ends h tree stdin env words tree ⟨0, w, stderr⟩
  | written {o : Options} {t : Text} {p : Path} {after : FileTree} {stderr : Option Text}
    (fixes : h.Fixes tree stdin env words o (ofText t)) (output : o.output = some (.path p))
    (write : TextFile.write tree p.text p t = .ok after) :
    Ends h tree stdin env words after ⟨0, [], stderr⟩
  | brokenOff {after : FileTree} (breaks : h.BreaksOff tree stdin env words after) :
    Ends h tree stdin env words after brokenOff

theorem ends_failed (h : Host) (tree : FileTree) (stdin : Octets) (env : Option Text)
    (words : List Text) (records : Text) (f : Fault) :
    h.Ends tree stdin env words tree (failed records f) :=
  .failed (by simp [failed]) rfl

theorem ends_deliver {p : Path} (hfixes : h.Fixes tree stdin env words o w)
    (houtput : o.output = some (.path p)) (shown : Text) :
    h.Ends tree stdin env words (deliver tree shown p w).1 (deliver tree shown p w).2 := by
  unfold deliver
  split
  · rename_i t htext
    obtain rfl := toText?_eq_some_iff.1 htext
    split
    · rename_i after hwrite
      exact .written hfixes houtput hwrite
    · exact ends_failed ..
  · rename_i htext
    split
    · rename_i after hwrite
      exact .brokenOff ⟨o, w, p, hfixes, htext, houtput, hwrite⟩
    · exact ends_failed ..

/-- **How a run ends.** -/
theorem ends_run (h : Host) (tree : FileTree) (stdin : Octets) (env : Option Text)
    (words : List Text) :
    h.Ends tree stdin env words (h.run tree stdin env words).1 (h.run tree stdin env words).2 := by
  unfold run
  split
  · exact .failed (by simp) rfl
  · rename_i hasked
    exact .help hasked
  · rename_i o hasked
    split
    · exact .failed (by simp [brokenOff]) rfl
    · rename_i hlevel
      split
      · exact ends_failed ..
      · rename_i w records hwork
        have hfixes : h.Fixes tree stdin env words o w :=
          ⟨hasked, Bool.eq_false_iff.2 hlevel, fixed_eq_ok_iff.2 ⟨records, hwork⟩⟩
        cases houtput : o.output with
        | none => exact .printed hfixes houtput
        | some value =>
          cases value with
          | nothing => exact ends_failed ..
          | path p => exact ends_deliver hfixes houtput _

/-- A run that has a text to write gives it to its output. -/
theorem run_of_fixes (hfixes : h.Fixes tree stdin env words o w) :
    ∃ shown, h.run tree stdin env words =
      match o.output with
      | none => (tree, ⟨0, w, some shown⟩)
      | some .nothing => (tree, failed shown .noPath)
      | some (.path p) => deliver tree shown p w := by
  obtain ⟨records, hwork⟩ := fixed_eq_ok_iff.1 hfixes.fixed
  refine ⟨(logging o env).shown records, ?_⟩
  simp only [run, hfixes.asked, hfixes.level, hwork]
  rfl

/-- **A run succeeds** where it is asked for help, and where there is a fixed text and the output
takes it. -/
theorem code_run_eq_zero_iff (h : Host) (tree : FileTree) (stdin : Octets) (env : Option Text)
    (words : List Text) :
    (h.run tree stdin env words).2.code = 0 ↔
      Options.ofWords h.edition words = .help ∨
        ∃ o w, h.Fixes tree stdin env words o w ∧
          (o.output = none ∨ ∃ p t after, o.output = some (.path p) ∧ w = ofText t ∧
            TextFile.write tree p.text p t = .ok after) := by
  constructor
  · have hends := h.ends_run tree stdin env words
    generalize (h.run tree stdin env words).1 = after, (h.run tree stdin env words).2 = e at hends ⊢
    intro hcode
    cases hends with
    | failed hnot hstdout => exact absurd hcode hnot
    | help hasked => exact .inl hasked
    | printed hfixes houtput => exact .inr ⟨_, _, hfixes, .inl houtput⟩
    | written hfixes houtput hwrite =>
      exact .inr ⟨_, _, hfixes, .inr ⟨_, _, _, houtput, rfl, hwrite⟩⟩
    | brokenOff hbreaks => exact absurd hcode Nat.one_ne_zero
  · rintro (hasked | ⟨o, w, hfixes, houtput⟩)
    · simp [run, hasked]
    · obtain ⟨shown, hrun⟩ := run_of_fixes hfixes
      rcases houtput with houtput | ⟨p, t, after, houtput, rfl, hwrite⟩
      · rw [hrun, houtput]
      · simp [hrun, houtput, deliver, toText?_ofText, hwrite]

/-! ## Texts without surrogates -/

/-- No surrogates come in: the standard input is read strictly, or it is UTF-8, or a file is read
instead of it. -/
def ReadsPlain (h : Host) (stdin : Octets) (o : Options) : Prop :=
  h.lenient = false ∨ (∃ t, Utf8.decode stdin = .ok t) ∨ o.input ≠ none

theorem through_ofText (f : Text → Text) (t : Text) : through f (ofText t) = ofText (f t) := by
  rw [through, toText?_ofText]

theorem fixWide_ofText (t : Text) :
    Pipeline.fixWide tree s cells (ofText t) = (Pipeline.fixText tree s cells t).map ofText := by
  simp only [Pipeline.fixWide, toText?_ofText]
  cases Pipeline.fixText tree s cells t <;> rfl

theorem exists_decodeOctets_eq (hplain : h.lenient = false ∨ ∃ t, Utf8.decode stdin = .ok t)
    (hw : h.decodeOctets stdin = .ok w) : ∃ t, w = ofText t := by
  unfold decodeOctets at hw
  split at hw
  · rename_i hlenient
    obtain hstrict | ⟨t, ht⟩ := hplain
    · rw [hstrict] at hlenient
      cases hlenient
    · exact ⟨t, (Except.ok.inj hw).symm.trans (Utf8.decodeLenient_of_decode_eq_ok ht)⟩
  · split at hw
    · exact ⟨_, (Except.ok.inj hw).symm⟩
    · cases hw

theorem exists_decode_eq (hplain : h.lenient = false ∨ ∃ t, Utf8.decode stdin = .ok t)
    (hw : h.decode stdin = .ok w) : ∃ t, w = ofText t := by
  unfold decode at hw
  split at hw
  · obtain ⟨v, hv, rfl⟩ := map_eq_ok_iff.1 hw
    obtain ⟨t, rfl⟩ := exists_decodeOctets_eq hplain hv
    exact ⟨_, through_ofText _ t⟩
  · exact exists_decodeOctets_eq hplain hw

theorem exists_inputText_eq (hplain : h.ReadsPlain stdin o)
    (hw : h.inputText tree stdin o = .ok w) : ∃ t, w = ofText t := by
  unfold inputText at hw
  split at hw
  · obtain ⟨t, -, rfl⟩ := map_eq_ok_iff.1 hw
    exact ⟨t, rfl⟩
  · rename_i hinput
    refine exists_decode_eq ?_ hw
    rcases hplain with hlenient | hutf8 | hfile
    · exact .inl hlenient
    · exact .inr hutf8
    · exact absurd hinput hfile

/-- **Where no surrogates come in, none go out.** -/
theorem exists_fixed_eq (hplain : h.ReadsPlain stdin o) (hw : h.fixed tree stdin o = .ok w) :
    ∃ t, w = ofText t := by
  obtain ⟨text, htext, hw⟩ := bind_eq_ok_iff.1 hw
  obtain ⟨t, rfl⟩ := exists_inputText_eq hplain htext
  obtain ⟨s, -, hw⟩ := bind_eq_ok_iff.1 hw
  obtain ⟨loaded, -, hw⟩ := bind_eq_ok_iff.1 hw
  rw [fixWide_ofText] at hw
  obtain ⟨fixed, -, rfl⟩ := map_eq_ok_iff.1 hw
  exact ⟨fixed, rfl⟩

/-! ## All or nothing -/

/-- The file that a path names has a content, and all else is as it was. -/
def Written (tree : FileTree) (p : Path) (content : Octets) (after : FileTree) : Prop :=
  after.read p = .ok content ∧
    ∃ place node, tree.locate p = .ok (place, node) ∧ tree.Replaced place content after

theorem written_of_write_eq_ok {p : Path} {t : Text}
    (hwrite : TextFile.write tree p.text p t = .ok after) :
    Written tree p (Utf8.encode t) after :=
  FileTree.of_write_eq_ok (TextFile.write_eq_ok_iff.1 hwrite).2

/-- What it means that a text was delivered to an output: to the standard output, with no file
changed, or to the one file that a path names. -/
def Delivered (tree : FileTree) (w : WideText) (after : FileTree) (stdout : WideText) :
    Option SlotValue → Prop
  | none => after = tree ∧ stdout = w
  | some (.path p) => stdout = [] ∧ ∃ t, w = ofText t ∧ Written tree p (Utf8.encode t) after
  | some .nothing => False

/-- A run that does not succeed writes nothing, unless it breaks off. -/
theorem Ends.of_code_ne_zero {e : Exit WideText} (hends : h.Ends tree stdin env words after e)
    (hcode : e.code ≠ 0) :
    e.stdout = [] ∧ (after = tree ∨ h.BreaksOff tree stdin env words after) := by
  cases hends with
  | failed _ hstdout => exact ⟨hstdout, .inl rfl⟩
  | brokenOff hbreaks => exact ⟨rfl, .inr hbreaks⟩
  | help | printed | written => exact absurd rfl hcode

/-- A run that succeeds gives help or delivers the fixed text. -/
theorem Ends.of_code_eq_zero {e : Exit WideText} (hends : h.Ends tree stdin env words after e)
    (hcode : e.code = 0) :
    (Options.ofWords h.edition words = .help ∧ after = tree ∧
      e.stdout = ofText CommandLine.help) ∨
      ∃ o w, h.Fixes tree stdin env words o w ∧ Delivered tree w after e.stdout o.output := by
  cases hends with
  | failed hnot _ => exact absurd hcode hnot
  | brokenOff _ => exact absurd hcode Nat.one_ne_zero
  | help hasked => exact .inl ⟨hasked, rfl, by dsimp only⟩
  | printed hfixes houtput =>
    refine .inr ⟨_, _, hfixes, ?_⟩
    rw [houtput]
    exact ⟨rfl, rfl⟩
  | written hfixes houtput hwrite =>
    refine .inr ⟨_, _, hfixes, ?_⟩
    rw [houtput]
    exact ⟨rfl, _, rfl, written_of_write_eq_ok hwrite⟩

/-- **A run does all or nothing, or breaks off.** If it exits with another code than zero, it leaves
nothing on the standard output and every file as it was, unless it breaks off. If it exits with
zero, it was asked for help and gave it, or it delivered the fixed text for the netlist and the
cells that were in the files before. A run that breaks off leaves the output file empty and all else
as it was. No run breaks off whose netlist comes from a file, from UTF-8, or by strict reading. -/
theorem run_all_or_breaks_off (h : Host) (tree : FileTree) (stdin : Octets) (env : Option Text)
    (words : List Text) :
    ((h.run tree stdin env words).2.code ≠ 0 →
      (h.run tree stdin env words).2.stdout = [] ∧
        ((h.run tree stdin env words).1 = tree ∨
          h.BreaksOff tree stdin env words (h.run tree stdin env words).1)) ∧
    ((h.run tree stdin env words).2.code = 0 →
      (Options.ofWords h.edition words = .help ∧ (h.run tree stdin env words).1 = tree ∧
        (h.run tree stdin env words).2.stdout = ofText help) ∨
      ∃ o w, Options.ofWords h.edition words = .run o ∧ h.fixed tree stdin o = .ok w ∧
        Delivered tree w (h.run tree stdin env words).1 (h.run tree stdin env words).2.stdout
          o.output) ∧
    (∀ after, h.BreaksOff tree stdin env words after →
      h.run tree stdin env words = (after, brokenOff) ∧
        ∃ o p, Options.ofWords h.edition words = .run o ∧ o.output = some (.path p) ∧
          Written tree p [] after) ∧
    ∀ o, Options.ofWords h.edition words = .run o → h.ReadsPlain stdin o →
      ∀ after, ¬ h.BreaksOff tree stdin env words after := by
  have hends := h.ends_run tree stdin env words
  refine ⟨hends.of_code_ne_zero, fun hcode => ?_, ?_, ?_⟩
  · rcases hends.of_code_eq_zero hcode with hhelp | ⟨o, w, hfixes, hdelivered⟩
    · exact .inl hhelp
    · exact .inr ⟨o, w, hfixes.asked, hfixes.fixed, hdelivered⟩
  · rintro after ⟨o, w, p, hfixes, htext, houtput, hwrite⟩
    obtain ⟨shown, hrun⟩ := run_of_fixes hfixes
    have hempty : Utf8.encode [] = [] := by decide +kernel
    refine ⟨?_, o, p, hfixes.asked, houtput, hempty ▸ written_of_write_eq_ok hwrite⟩
    rw [hrun, houtput]
    simp only [deliver, htext, hwrite]
  · rintro o hasked hplain after ⟨o', w, p, hfixes, htext, -, -⟩
    obtain rfl : o = o' := Asked.run.inj (hasked.symm.trans hfixes.asked)
    obtain ⟨t, rfl⟩ := exists_fixed_eq hplain hfixes.fixed
    rw [toText?_ofText] at htext
    cases htext

/-- **A stray octet empties the output file.** Where the standard input is read leniently, the run
exits with another code than zero, and the file that it was to write to has lost its content. -/
theorem run_empties_output :
    let h : Host := { edition := .late, translates := false, lenient := true }
    let tree : FileTree := ⟨[], [(["out.cdl".toList], .file [82, 10])]⟩
    let words := ["-o", "out.cdl"].map (·.toList)
    let r := h.run tree [82, 49, 32, 97, 32, 98, 32, 255, 10] none words
    r.2.code = 1 ∧ tree.content? ["out.cdl".toList] = some [82, 10] ∧
      r.1.content? ["out.cdl".toList] = some [] := by
  decide +kernel

end Host

/-! ## The plain host -/

theorem chars_ofText (t : Text) : chars (ofText t) = t := by
  simp [chars, ofText, List.filterMap_map]

/-- On the plain host nothing is lost of what was written to the standard output. -/
theorem ofText_stdout_run (tree : FileTree) (stdin : Octets) (env : Option Text)
    (words : List Text) :
    ofText (run tree stdin env words).2.stdout = (plainHost.run tree stdin env words).2.stdout := by
  have hstdout : (run tree stdin env words).2.stdout =
      chars (plainHost.run tree stdin env words).2.stdout := rfl
  have hplain : ∃ t, (plainHost.run tree stdin env words).2.stdout = ofText t := by
    have hends := plainHost.ends_run tree stdin env words
    generalize (plainHost.run tree stdin env words).1 = after,
      (plainHost.run tree stdin env words).2 = e at hends
    cases hends with
    | failed hcode hstdout => exact ⟨[], hstdout⟩
    | help hasked => exact ⟨help, by dsimp only⟩
    | printed hfixes houtput => exact Host.exists_fixed_eq (.inl rfl) hfixes.fixed
    | written hfixes houtput hwrite => exact ⟨[], rfl⟩
    | brokenOff hbreaks => exact ⟨[], rfl⟩
  obtain ⟨t, ht⟩ := hplain
  rw [hstdout, ht, chars_ofText]

/-- The output may be the file of the netlist itself. -/
example :
    (run ⟨[], [(["f".toList], .file [10, 82])]⟩ [] none
      (["-i", "f", "-of", "--no-param", "--no-calc-data", "--no-header"].map (·.toList))).1.content?
        ["f".toList] = some [82, 10] := by
  decide +kernel

end NetlistPrep.CommandLine
