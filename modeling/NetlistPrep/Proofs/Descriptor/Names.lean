import NetlistPrep.Proofs.Descriptor.Reader

/-!
# The names that a descriptor gives

The name of a port is read off a line as the part of its first word in front of a colon, so it holds
neither blanks nor colons (`plain_of_portName?`). The ports of the cells that are read are named in
this way and in no other (`plain_of_mem_parse`). In particular a port name has no line feed.

The name of a cell is the line in front of a colon without the blanks at its ends
(`isTrimmed_of_cellName?`).
-/

namespace NetlistPrep.Descriptor

open Text

/-- A name without blanks and colons. -/
def IsPlain (name : Text) : Prop := ∀ c ∈ name, isBlank c = false ∧ c ≠ ':'

instance (name : Text) : Decidable (IsPlain name) := List.decidableBAll _ name

theorem IsPlain.newline_not_mem {name : Text} (h : IsPlain name) : '\n' ∉ name := fun hm =>
  absurd (h _ hm).1 (by decide)

theorem plain_of_portName? {line name : Text} (h : portName? line = some name) : IsPlain name := by
  unfold portName? at h
  split at h
  · obtain rfl := Option.some.inj h
    intro c hc
    rw [before] at hc
    have hcolon := List.all_eq_true.1 List.all_takeWhile c hc
    have hword := (List.takeWhile_sublist _).subset hc
    refine ⟨?_, by simpa using hcolon⟩
    cases hwords : words (dropBlanks line) with
    | nil => simp [hwords] at hword
    | cons w ws =>
      rw [hwords, List.headD_cons] at hword
      exact not_blank_of_mem_words (t := dropBlanks line) (by simp [hwords]) c hword
  · simp at h

theorem plain_of_mem_ports {block : List Text} {p : Port} (h : p ∈ ports block) :
    IsPlain p.name := by
  have hname : p.name ∈ (ports block).map (·.name) := List.mem_map_of_mem h
  rw [map_name_ports, List.mem_eraseDups] at hname
  obtain ⟨line, -, hline⟩ := List.mem_filterMap.1 hname
  exact plain_of_portName? hline

/-- **Every port of a descriptor has a plain name.** -/
theorem plain_of_mem_parse {t : Text} {e : Text × Cell} (he : e ∈ (parse t).entries) {p : Port}
    (hp : p ∈ e.2.ports) : IsPlain p.name := by
  rw [parse, read, (hasRead_feedAll (Text.lines t)).blocks.entries_table] at he
  obtain ⟨name, -, rfl⟩ := List.mem_map.1 he
  exact plain_of_mem_ports hp

/-! ## Names of cells -/

/-- A name without a colon and without blanks at its ends. -/
structure IsTrimmed (name : Text) : Prop where
  colon : ':' ∉ name
  head : ∀ c ∈ name.head?, isBlank c = false
  getLast : ∀ c ∈ name.getLast?, isBlank c = false

instance (name : Text) : Decidable (IsTrimmed name) :=
  decidable_of_iff (':' ∉ name ∧ name.head?.any isBlank = false ∧ name.getLast?.any isBlank = false)
    ⟨fun h => ⟨h.1, (Option.any_eq_false ..).1 h.2.1, (Option.any_eq_false ..).1 h.2.2⟩,
      fun h => ⟨h.colon, (Option.any_eq_false ..).2 h.head, (Option.any_eq_false ..).2 h.getLast⟩⟩

theorem not_isBlank_of_head?_dropWhile {t : Text} :
    ∀ c ∈ (t.dropWhile isBlank).head?, isBlank c = false := by
  intro c hc
  have h := List.head?_dropWhile_not isBlank t
  rw [Option.mem_def.1 hc] at h
  simpa using h

theorem isTrimmed_trim {t : Text} (h : ':' ∉ t) : IsTrimmed (trim t) := by
  have hdrop : dropBlanks t <:+ t := List.dropWhile_suffix isBlank
  have hbegin : trim t <+: dropBlanks t := by
    rw [trim, dropEnd, ← List.reverse_suffix, List.reverse_reverse]
    exact List.dropWhile_suffix isBlank
  refine ⟨fun hc => h (hdrop.subset (hbegin.subset hc)), fun c hc => ?_, fun c hc => ?_⟩
  · refine not_isBlank_of_head?_dropWhile (t := t) c ?_
    obtain ⟨r, hr⟩ := hbegin
    rw [dropBlanks] at hr
    rw [← hr]
    cases htrim : trim t with
    | nil => simp [htrim] at hc
    | cons d ds => simpa [htrim] using hc
  · rw [trim, dropEnd, List.getLast?_reverse] at hc
    exact not_isBlank_of_head?_dropWhile c hc

theorem isTrimmed_of_cellName? {line name : Text} (h : cellName? line = some name) :
    IsTrimmed name := by
  unfold cellName? at h
  split at h
  · obtain rfl := Option.some.inj h
    refine isTrimmed_trim fun hc => ?_
    simpa using List.all_eq_true.1 List.all_takeWhile ':' hc
  · simp at h

theorem IsTrimmed.trim_eq {name : Text} (h : IsTrimmed name) : trim name = name := by
  have hself : ∀ t : Text, (∀ c ∈ t.head?, isBlank c = false) → t.dropWhile isBlank = t := by
    intro t ht
    cases t with
    | nil => rfl
    | cons c r => rw [List.dropWhile_cons_of_neg (by simp [ht c rfl])]
  rw [trim, dropBlanks, hself name h.head, dropEnd, hself, List.reverse_reverse]
  simpa using h.getLast

end NetlistPrep.Descriptor
