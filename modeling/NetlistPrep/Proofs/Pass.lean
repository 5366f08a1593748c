import NetlistPrep.Proofs.PinInfo.Walk
import NetlistPrep.Proofs.Preamble
import NetlistPrep.Proofs.Store.Netlist

/-!
# What a pass accounts for

Every pass counts in its own way what it puts in and rewrites, and no count is taken from the
netlists before and after.

* `Pass.accounts_of_run`: the counts are right all the same. The account fingerprints both netlists,
  and there are as many lines more as it says were put in.
* `Pass.texts_of_run_onLine`: a pass that works line by line moves no line and counts the places at
  which the lines differ.
-/

namespace NetlistPrep

open Outcome PinInfo

/-! ## What the work of a pass puts in -/

namespace Netlist

variable {n m : Netlist}

theorem size_eq_of_texts_eq_append {front : List Text} (h : m.texts = front ++ n.texts) :
    m.size = n.size + front.length := by
  rw [← length_texts, ← length_texts, h, List.length_append, Nat.add_comm]

theorem size_eq_of_texts_eq_map {f : Text → Text} (h : m.texts = n.texts.map f) :
    m.size = n.size := by
  rw [← length_texts, ← length_texts, h, List.length_map]

/-- What sections put in stands in front, the last one first. -/
theorem texts_of_ensureSections_eq_ok {sections : List Section} {inserted : List Text}
    (h : ensureSections sections n = (m, .ok inserted)) :
    m.texts = inserted.reverse ++ n.texts := by
  have hrun := Store.runOn_ensureSections sections n
  rw [h] at hrun
  have hitems : m.items = (inserted.reverse ++ n.texts).map .str := by
    rw [Store.eq_append_of_runOn_ensureSections hrun, List.map_append, List.map_reverse]
    rfl
  exact (List.map_inj_right fun _ _ => Json.str.inj).1 hitems

theorem texts_of_prependBanner_eq_ok {b : Banner} {added : Bool}
    (h : n.prependBanner b = (m, .ok added)) :
    m.texts = (if added then b.lines else []) ++ n.texts := by
  unfold prependBanner at h
  split at h
  · obtain ⟨rfl, rfl⟩ : n = m ∧ false = added := by simpa using h
    rfl
  · cases hlines : b.lines.mapM Line.ofText with
    | error fault => simp [hlines] at h
    | ok lines =>
      obtain ⟨rfl, rfl⟩ : n.prependBlock lines = m ∧ true = added := by simpa [hlines] using h
      rw [texts_prependBlock, Line.mapM_ofText_eq_ok_iff.1 hlines]
      rfl

/-- A rewriting that does not fail wrote lines only. -/
theorem newline_not_mem_of_rewriteLines_eq_ok {f : Text → Text} {lines : List Line} {changed : Nat}
    (h : (rewriteLines f lines).2 = .ok changed) : ∀ l ∈ lines, '\n' ∉ f l.text := by
  induction lines generalizing changed with
  | nil => simp
  | cons l rest ih =>
    rw [List.forall_mem_cons]
    rw [rewriteLines] at h
    split at h
    · rename_i hsame
      exact ⟨hsame.symm ▸ l.noLineFeed, ih h⟩
    · cases hl : Line.ofText (f l.text) with
      | error fault => simp [hl] at h
      | ok l' =>
        simp only [hl] at h
        obtain ⟨count, hcount, -⟩ := map_eq_ok_iff.1 h
        exact ⟨Line.ofText_eq_ok_iff.1 hl ▸ l'.noLineFeed, ih hcount⟩

/-- A rewriting that does not fail is a `map`, and it counts the lines that changed. -/
theorem texts_of_rewrite_eq_ok {f : Text → Text} {changed : Nat}
    (h : n.rewrite f = (m, .ok changed)) :
    m.texts = n.texts.map f ∧ changed = n.texts.countP fun t => f t ≠ t := by
  have hlines : ∀ t ∈ n.texts, '\n' ∉ f t :=
    List.forall_mem_map.2 (newline_not_mem_of_rewriteLines_eq_ok (congrArg Prod.snd h))
  obtain ⟨htexts, hchanged⟩ := rewrite_eq_ok hlines
  rw [h] at htexts hchanged
  exact ⟨htexts, Except.ok.inj hchanged⟩

end Netlist

/-! ## Accounts -/

/-- An account of work that took a netlist to another: it fingerprints the texts of both, counts
their lines, and says how many were put in. -/
structure Provenance.Accounts (p : Provenance) (before after : Netlist) : Prop where
  input : p.inputs.lookup netlistKey = some (Fingerprint.ofText before.toText)
  output : p.outputs.lookup netlistKey = some (Fingerprint.ofText after.toText)
  linesIn : p.linesIn = before.size
  linesOut : p.linesOut = after.size
  inserted : p.linesOut = p.linesIn + p.inserted

namespace Pass

variable {p : Pass} {n m : Netlist} {report : Report}

/-- What a pass puts in the place of a line, where it works line by line. -/
def onLine? : Pass → Option (Text → Text)
  | .keyCase replacements => some (KeyCase.lowerKeys replacements)
  | .geometry => some fun t => (Recovery.ofLine t).text
  | _ => none

theorem rewrite_of_work_eq_ok {f : Text → Text} {found : Finding}
    (hf : p.onLine? = some f) (h : p.work n = (m, .ok found)) :
    n.rewrite f = (m, .ok (rewritten found)) ∧ p.inserted found = 0 := by
  have hanswer := congrArg Prod.snd h
  have hm := congrArg Prod.fst h
  cases p with
  | keyCase replacements =>
    obtain rfl := Option.some.inj hf
    obtain ⟨changed, hchanged, rfl⟩ := map_eq_ok_iff.1 hanswer
    exact ⟨Prod.ext hm hchanged, rfl⟩
  | geometry =>
    obtain rfl := Option.some.inj hf
    obtain ⟨augmented, haugmented, rfl⟩ := map_eq_ok_iff.1 hanswer
    exact ⟨Prod.ext hm haugmented, rfl⟩
  | sectionDefaults | banner | pinInfo => simp [onLine?] at hf

theorem size_of_work_onLine {f : Text → Text} {found : Finding} (hf : p.onLine? = some f)
    (h : p.work n = (m, .ok found)) : m.size = n.size + p.inserted found := by
  obtain ⟨hrewrite, hinserted⟩ := rewrite_of_work_eq_ok hf h
  rw [Netlist.size_eq_of_texts_eq_map (Netlist.texts_of_rewrite_eq_ok hrewrite).1, hinserted,
    Nat.add_zero]

/-- **A pass puts in as many lines as it finds that it did.** -/
theorem size_of_work_eq_ok {found : Finding} (h : p.work n = (m, .ok found)) :
    m.size = n.size + p.inserted found := by
  have hanswer := congrArg Prod.snd h
  have hm := congrArg Prod.fst h
  cases p with
  | sectionDefaults sections =>
    obtain ⟨lines, hlines, rfl⟩ := map_eq_ok_iff.1 hanswer
    have htexts := Netlist.texts_of_ensureSections_eq_ok (Prod.ext hm hlines)
    rw [Netlist.size_eq_of_texts_eq_append htexts, List.length_reverse]
    rfl
  | banner b =>
    obtain ⟨added, hadded, rfl⟩ := map_eq_ok_iff.1 hanswer
    have htexts := Netlist.texts_of_prependBanner_eq_ok (Prod.ext hm hadded)
    rw [Netlist.size_eq_of_texts_eq_append htexts]
    cases added <;> rfl
  | keyCase replacements => exact size_of_work_onLine rfl h
  | geometry => exact size_of_work_onLine rfl h
  | pinInfo cells =>
    obtain ⟨stats, hstats, rfl⟩ := map_eq_ok_iff.1 hanswer
    exact Netlist.size_mergeFrom (Prod.ext hm hstats)

theorem exists_work_of_run_eq_ok (h : p.run n = .ok report) :
    ∃ found, p.work n = (report.netlist, .ok found) ∧
      report.provenance = p.provenance n report.netlist found := by
  unfold run at h
  split at h
  · simp at h
  · rename_i after found hwork
    obtain rfl := Except.ok.inj h
    exact ⟨found, hwork, rfl⟩

/-- **The account of a pass is right.** -/
theorem accounts_of_run (h : p.run n = .ok report) :
    report.provenance.Accounts n report.netlist := by
  obtain ⟨found, hwork, hprovenance⟩ := exists_work_of_run_eq_ok h
  have hsize := size_of_work_eq_ok hwork
  rw [hprovenance]
  exact ⟨rfl, rfl, rfl, rfl, by simp [provenance, hsize]⟩

/-! ## Passes that work line by line -/

/-- The number of places at which lines differ. -/
def differences (a b : List Text) : Nat := (a.zip b).countP fun x => x.1 ≠ x.2

theorem differences_map (f : Text → Text) (ts : List Text) :
    differences ts (ts.map f) = ts.countP fun t => f t ≠ t := by
  have hzip : (ts.map id).zip (ts.map f) = ts.map fun t => (t, f t) := List.zip_map'
  rw [List.map_id] at hzip
  rw [differences, hzip, List.countP_map]
  simp only [Function.comp_def, ne_comm]

/-- **No line moves, and the lines that are counted are those that differ.** -/
theorem texts_of_run_onLine {f : Text → Text} (hf : p.onLine? = some f)
    (h : p.run n = .ok report) :
    report.netlist.texts = n.texts.map f ∧
      report.provenance.rewritten = differences n.texts report.netlist.texts := by
  obtain ⟨found, hwork, hprovenance⟩ := exists_work_of_run_eq_ok h
  obtain ⟨hrewrite, -⟩ := rewrite_of_work_eq_ok hf hwork
  obtain ⟨htexts, hchanged⟩ := Netlist.texts_of_rewrite_eq_ok hrewrite
  refine ⟨htexts, ?_⟩
  rw [htexts, differences_map, hprovenance, ← hchanged]
  rfl

end Pass

end NetlistPrep
