import NetlistPrep.Pipeline
import NetlistPrep.Proofs.PinInfo.Walk
import NetlistPrep.Proofs.Pipeline.Line
import NetlistPrep.Proofs.Preamble

/-!
# What a whole run leaves

* `Leaves` tells what passes make of a netlist and which banners they add on the way. It composes
  along lists of passes (`Leaves.append`), and every pass has one lemma about what it leaves.
* `exists_leaves_passes_none` is the run without pin information: the lines of the preamble and
  those of the netlist, each through the line passes.
* `exists_leaves_passes` is the whole run. It succeeds where every pin-info line to be written is a
  line, and only there (`infosAreLines_of_runPasses_eq_ok`).
-/

namespace NetlistPrep.Pipeline

open Outcome PinInfo

/-! ## The meaning of the passes -/

/-- The title of the generator banner, by which it is recognised. -/
def title (s : Settings) : Text := (Banner.generator s.generatorName).marker

/-- The lines that go in front of lines. -/
def preamble (s : Settings) (body : List Text) : List Text :=
  (if s.header then (Banner.generator s.generatorName).missing body else [])
    ++ (if s.sectionDefaults then (Section.missing Section.standard body).reverse else [])
    ++ (if s.header then Banner.netlist.missing body else [])

/-- The lines merged with the pin information of cells, where cells are given. -/
def mergedFor : Option CellTable → List Text → List Text
  | none, lines => lines
  | some t, lines => merged t false lines

theorem mergedFor_eq (cells : Option CellTable) (lines : List Text) :
    mergedFor cells lines = merged (cells.getD .empty) false lines := by
  cases cells with
  | none => exact (merged_empty lines).symm
  | some t => rfl

/-- Whether a banner was added, as far as a pass tells. -/
def bannersAdded (reports : List Report) : List Bool :=
  reports.filterMap fun r => match r.finding with
    | .banner added => some added
    | _ => none

/-! ## Passes one after the other -/

/-- Passes leave a netlist, and the banner passes among them tell which banners they added. -/
def Leaves (ps : List Pass) (n m : Netlist) (added : List Bool) : Prop :=
  ∃ stages, runPasses n ps = .ok (m, stages) ∧ bannersAdded (stages.map (·.2)) = added

theorem Leaves.nil (n : Netlist) : Leaves [] n n [] := ⟨[], rfl, rfl⟩

theorem runPasses_append (n : Netlist) (ps qs : List Pass) :
    runPasses n (ps ++ qs) = do
      let (m, stages) ← runPasses n ps
      let (m', stages') ← runPasses m qs
      return (m', stages ++ stages') := by
  induction ps generalizing n with
  | nil =>
    simp only [List.nil_append, runPasses, bind, Except.bind, pure, Except.pure]
    cases runPasses n qs <;> rfl
  | cons p ps ih =>
    rw [List.cons_append, runPasses, runPasses]
    cases p.run n with
    | error fault => rfl
    | ok report =>
      simp only [bind, Except.bind, ih]
      cases runPasses report.netlist ps with
      | error fault => rfl
      | ok r =>
        obtain ⟨m, stages⟩ := r
        simp only [pure, Except.pure]
        cases runPasses m qs <;> rfl

theorem Leaves.append {ps qs : List Pass} {n m k : Netlist} {added added' : List Bool}
    (h : Leaves ps n m added) (h' : Leaves qs m k added') :
    Leaves (ps ++ qs) n k (added ++ added') := by
  obtain ⟨stages, hrun, rfl⟩ := h
  obtain ⟨stages', hrun', rfl⟩ := h'
  refine ⟨stages ++ stages', ?_, by simp [bannersAdded]⟩
  simp only [runPasses_append, hrun, hrun', bind, Except.bind, pure, Except.pure]

def bannerAdded : Finding → List Bool
  | .banner added => [added]
  | _ => []

theorem leaves_singleton {p : Pass} {n m : Netlist} {f : Finding} (h : p.work n = (m, .ok f)) :
    Leaves [p] n m (bannerAdded f) := by
  have hrun : ∃ report, p.run n = .ok report ∧ report.netlist = m ∧ report.finding = f := by
    rw [Pass.run, h]
    exact ⟨_, rfl, rfl, rfl⟩
  obtain ⟨report, hrun, rfl, rfl⟩ := hrun
  refine ⟨[(p.stage, report)], ?_, ?_⟩
  · simp only [runPasses, hrun, bind, Except.bind, pure, Except.pure]
  · cases hf : report.finding <;> simp [bannersAdded, bannerAdded, hf]

theorem exists_leaves_ite {p : Pass} {n : Netlist} {ts : List Text} {f : Finding}
    (h : (p.work n).1.texts = ts ∧ (p.work n).2 = .ok f) (c : Bool) :
    ∃ m, Leaves (if c then [p] else []) n m (if c then bannerAdded f else []) ∧
      m.texts = if c then ts else n.texts := by
  cases c with
  | false => exact ⟨n, .nil n, rfl⟩
  | true => exact ⟨_, leaves_singleton (Prod.ext rfl h.2), h.1⟩

/-! ## The single passes -/

theorem work_banner {b : Banner} (h : ∀ l ∈ b.lines, '\n' ∉ l) (n : Netlist) :
    ((Pass.banner b).work n).1.texts = b.missing n.texts ++ n.texts ∧
      ((Pass.banner b).work n).2 = .ok (.banner (decide (b.marker ∉ n.texts))) := by
  obtain ⟨htexts, hanswer⟩ := n.prependBanner_eq h
  exact ⟨htexts, by simp only [Pass.work, hanswer]; rfl⟩

theorem work_sectionDefaults (n : Netlist) :
    ((Pass.sectionDefaults Section.standard).work n).1.texts =
        (Section.missing Section.standard n.texts).reverse ++ n.texts ∧
      ((Pass.sectionDefaults Section.standard).work n).2 =
        .ok (.sections (Section.missing Section.standard n.texts)) := by
  obtain ⟨htexts, hanswer⟩ :=
    Netlist.ensureSections_eq Section.standard_apart Section.standard_lines n
  exact ⟨htexts, by simp only [Pass.work, hanswer]; rfl⟩

theorem work_keyCase (n : Netlist) :
    ∃ changed, ((Pass.keyCase KeyCase.standard).work n).1.texts =
        n.texts.map (KeyCase.lowerKeys KeyCase.standard) ∧
      ((Pass.keyCase KeyCase.standard).work n).2 = .ok (.keyCase changed) := by
  obtain ⟨htexts, hanswer⟩ :=
    Netlist.rewrite_eq_ok (n := n) (f := KeyCase.lowerKeys KeyCase.standard) fun t ht =>
      KeyCase.newline_not_mem_lowerKeys (Netlist.not_newline_of_mem_texts ht)
  exact ⟨_, htexts, by simp only [Pass.work, Netlist.lowerKeys, hanswer]; rfl⟩

theorem work_geometry (n : Netlist) :
    ∃ augmented, (Pass.geometry.work n).1.texts = n.texts.map (fun t => (Recovery.ofLine t).text) ∧
      (Pass.geometry.work n).2 = .ok (.geometry augmented) := by
  obtain ⟨htexts, hanswer⟩ :=
    Netlist.rewrite_eq_ok (n := n) (f := fun t => (Recovery.ofLine t).text) fun t ht =>
      Recovery.newline_not_mem_text_ofLine (Netlist.not_newline_of_mem_texts ht)
  exact ⟨_, htexts, by simp only [Pass.work, Netlist.recoverGeometry, hanswer]; rfl⟩

theorem work_pinInfo {t : CellTable} {n : Netlist}
    (h : ∀ l ∈ n.texts, ∀ info, info? t l = some info → '\n' ∉ info) :
    ∃ stats, ((Pass.pinInfo t).work n).1.texts = merged t false n.texts ∧
      ((Pass.pinInfo t).work n).2 = .ok (.pinInfo stats) := by
  obtain ⟨m, stats, hmerge, htexts, -⟩ := Netlist.mergePinInfo_eq_ok h
  simp only [Pass.work, hmerge]
  exact ⟨stats, htexts, rfl⟩

/-! ## The run without pin information -/

/-- Whether a run adds the two banners, as far as the lines that it gets tell. -/
def missingBanners (s : Settings) (body : List Text) : List Bool :=
  if s.header then
    [decide (Banner.netlist.marker ∉ body), decide (title s ∉ body)]
  else []

theorem ite_append_eq (c : Bool) (front ts : List Text) :
    (if c then front ++ ts else ts) = (if c then front else []) ++ ts := by
  cases c <;> rfl

theorem mem_of_mem_ite {c : Bool} {ts : List Text} {l : Text} (h : l ∈ if c then ts else []) :
    l ∈ ts := by
  cases c with
  | false => simp at h
  | true => exact h

theorem section_missing_append (c : Bool) (ts : List Text) :
    Section.missing Section.standard ((if c then Banner.netlist.missing ts else []) ++ ts) =
      Section.missing Section.standard ts := by
  have hlines : ∀ s ∈ Section.standard, ¬ s.Begins Banner.netlist.lines := by decide
  refine Section.missing_append_of_apart ts fun s hs ⟨l, hl, hbegins⟩ => hlines s hs ?_
  exact ⟨l, Banner.mem_of_mem_missing (mem_of_mem_ite hl), hbegins⟩

theorem map_fixLine (s : Settings) (ts : List Text) :
    ts.map (fixLine s) =
      let lowered := if s.caseConversion then ts.map (KeyCase.lowerKeys KeyCase.standard) else ts
      if s.geometry then lowered.map (fun t => (Recovery.ofLine t).text) else lowered := by
  unfold fixLine lowerLine
  cases s.caseConversion <;> cases s.geometry <;> simp [Function.comp_def]

/-- Nothing that goes in front before the generator banner is its title. -/
theorem title_mem_append_iff (s : Settings) (c c' : Bool) (ts : List Text) :
    title s ∈
        (if c then (Section.missing Section.standard ts).reverse else [])
          ++ ((if c' then Banner.netlist.missing ts else []) ++ ts) ↔
      title s ∈ ts := by
  have hstart : ∀ l ∈ Section.standard.map (·.defaultLine) ++ Banner.netlist.lines,
      ¬ "* Generated by ".toList <+: l := by decide
  have htitle : "* Generated by ".toList <+: title s := List.prefix_append _ _
  rw [List.mem_append, List.mem_append]
  constructor
  · rintro (h | h | h)
    · obtain ⟨sec, hsec, -, hline⟩ :=
        Section.mem_missing_iff.1 (List.mem_reverse.1 (mem_of_mem_ite h))
      refine absurd htitle (hstart _ (List.mem_append_left _ ?_))
      exact hline ▸ List.mem_map_of_mem hsec
    · refine absurd htitle (hstart _ (List.mem_append_right _ ?_))
      exact Banner.mem_of_mem_missing (mem_of_mem_ite h)
    · exact h
  · exact fun h => .inr (.inr h)

/-- **A run without pin information puts the preamble in front and fixes every line,** those of the
preamble too, and adds the banners whose titles are missing. -/
theorem exists_leaves_passes_none (s : Settings) (n : Netlist) :
    ∃ m, Leaves (passes s none) n m (missingBanners s n.texts) ∧
      m.texts = (preamble s n.texts ++ n.texts).map (fixLine s) := by
  -- Each pass looks at the lines that the ones before it left, so what it puts in front is first
  -- said of those and then of the lines of `n`.
  obtain ⟨n₁, h₁, t₁⟩ := exists_leaves_ite (work_banner Banner.newline_not_mem_netlist n) s.header
  obtain ⟨n₂, h₂, t₂⟩ := exists_leaves_ite (work_sectionDefaults n₁) s.sectionDefaults
  rw [ite_append_eq] at t₁
  rw [ite_append_eq, t₁, section_missing_append] at t₂
  obtain ⟨n₃, h₃, t₃⟩ :=
    exists_leaves_ite (work_banner (Banner.newline_not_mem_generator s.oneLine) n₂) s.header
  have htitle : (Banner.generator s.generatorName).marker ∈ n₂.texts ↔ title s ∈ n.texts := by
    rw [t₂]
    exact title_mem_append_iff s _ _ _
  have hmissing : (Banner.generator s.generatorName).missing n₂.texts =
      (Banner.generator s.generatorName).missing n.texts := by
    simp only [Banner.missing, htitle]
    rfl
  rw [ite_append_eq, hmissing, t₂] at t₃
  simp only [htitle] at h₃
  obtain ⟨changed, hk⟩ := work_keyCase n₃
  obtain ⟨n₄, h₄, t₄⟩ := exists_leaves_ite hk s.caseConversion
  obtain ⟨augmented, hg⟩ := work_geometry n₄
  obtain ⟨n₅, h₅, t₅⟩ := exists_leaves_ite hg s.geometry
  refine ⟨n₅, ?_, ?_⟩
  · have h := ((((h₁.append h₂).append h₃).append h₄).append h₅).append (.nil n₅)
    have hadded : missingBanners s n.texts =
        (if s.header then [decide (Banner.netlist.marker ∉ n.texts)] else [])
          ++ (if s.header then [decide (title s ∉ n.texts)] else []) := by
      unfold missingBanners
      cases s.header <;> rfl
    simp only [bannerAdded, ite_self, List.append_nil] at h
    simpa [passes, hadded] using h
  · have hpreamble : n₃.texts = preamble s n.texts ++ n.texts := by
      rw [t₃, preamble, List.append_assoc, List.append_assoc]
    rw [t₅, t₄, hpreamble, map_fixLine]

/-! ## The run with pin information -/

/-- Every pin-info line that cells give some of the lines is a line. -/
def InfosAreLines (cells : Option CellTable) (lines : List Text) : Prop :=
  ∀ l ∈ lines, ∀ info, info? (cells.getD .empty) l = some info → '\n' ∉ info

theorem passes_eq (s : Settings) (cells : Option CellTable) :
    passes s cells = passes s none ++ (cells.map Pass.pinInfo).toList := by
  simp [passes]

/-- **A run gives the merged lines** where every pin-info line to be written is a line. -/
theorem exists_leaves_passes (s : Settings) {cells : Option CellTable} {n : Netlist}
    (h : InfosAreLines cells ((preamble s n.texts ++ n.texts).map (fixLine s))) :
    ∃ m, Leaves (passes s cells) n m (missingBanners s n.texts) ∧
      m.texts = mergedFor cells ((preamble s n.texts ++ n.texts).map (fixLine s)) := by
  obtain ⟨m, hm, hmtexts⟩ := exists_leaves_passes_none s n
  cases cells with
  | none => exact ⟨m, hm, hmtexts⟩
  | some t =>
    rw [← hmtexts] at h
    obtain ⟨stats, hwork⟩ := work_pinInfo h
    refine ⟨_, passes_eq s (some t) ▸ ?_, hwork.1.trans (congrArg _ hmtexts)⟩
    simpa [bannerAdded] using hm.append (leaves_singleton (Prod.ext rfl hwork.2))

/-- **A run succeeds only there.** -/
theorem infosAreLines_of_runPasses_eq_ok {s : Settings} {cells : Option CellTable} {n : Netlist}
    {r : Netlist × List (Text × Report)} (h : runPasses n (passes s cells) = .ok r) :
    InfosAreLines cells ((preamble s n.texts ++ n.texts).map (fixLine s)) := by
  intro l hl info hi
  obtain ⟨t, rfl, hi⟩ := exists_table_of_info? hi
  obtain ⟨m, ⟨stages, hrun, -⟩, hmtexts⟩ := exists_leaves_passes_none s n
  rw [passes_eq, runPasses_append, hrun] at h
  obtain ⟨_, hfront, h⟩ := bind_eq_ok_iff.1 h
  obtain rfl := Except.ok.inj hfront
  obtain ⟨_, hmerge, -⟩ := bind_eq_ok_iff.1 h
  obtain ⟨report, hreport, -⟩ := bind_eq_ok_iff.1 hmerge
  rw [← hmtexts] at hl
  cases hstats : (m.mergePinInfo t).2 with
  | ok stats => exact Netlist.newline_not_mem_of_mergePinInfo_eq_ok hstats l hl info hi
  | error fault => simp [Pass.run, Pass.work, hstats, Except.map] at hreport

end NetlistPrep.Pipeline
