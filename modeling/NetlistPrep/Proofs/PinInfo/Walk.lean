import NetlistPrep.Proofs.PinInfo

/-!
# The walk that writes pin information

`Netlist.mergePinInfo` walks a netlist by position and changes it on the way. The lines behind the
position are settled, and those from it on are as they were, apart from an outdated pin-info line
that the walk has just overwritten.

* `mergeFrom_append_of_none`, `mergeFrom_append_of_some` and `mergeFrom_append_of_newline` are one
  step of the walk: past a line that gets no pin-info line, past one that gets one, and the end at
  one that cannot get its own.
* `mergeFrom_append` is the whole walk. It leaves the merged lines and has `Counted` what it did.
* `mergePinInfo_eq_merged` is the merge from the first line on, `size_mergeFrom` its effect on the
  number of lines.
-/

namespace NetlistPrep

open PinInfo

variable {t : CellTable}

namespace PinInfo

/-- Lines without a pin-info line at their start. -/
def withoutStale : List Line → List Line
  | [] => []
  | l :: rest => if isPinInfo l then rest else l :: rest

theorem withoutStale_cases (lines : List Line) :
    withoutStale lines = lines ∨
      ∃ l, marker <+: l.text ∧ lines = l :: withoutStale lines := by
  cases lines with
  | nil => exact .inl rfl
  | cons l rest =>
    by_cases h : isPinInfo l = true
    · exact .inr ⟨l, List.isPrefixOf_iff_prefix.1 h, by rw [withoutStale, if_pos h]⟩
    · exact .inl (if_neg h)

theorem length_withoutStale_le (lines : List Line) :
    (withoutStale lines).length ≤ lines.length := by
  rcases withoutStale_cases lines with h | ⟨l, -, h⟩
  · exact Nat.le_of_eq (congrArg List.length h)
  · conv => rhs; rw [h]
    exact Nat.le_succ _

theorem mem_of_mem_withoutStale {l : Line} {lines : List Line} (h : l ∈ withoutStale lines) :
    l ∈ lines := by
  rcases withoutStale_cases lines with he | ⟨l', -, he⟩
  · rwa [he] at h
  · rw [he]
    exact List.mem_cons_of_mem _ h

theorem mem_withoutStale_of_info? {l : Line} {lines : List Line} {info : Text} (h : l ∈ lines)
    (hi : info? t l.text = some info) : l ∈ withoutStale lines := by
  rcases withoutStale_cases lines with he | ⟨l', hmarker, he⟩
  · rwa [he]
  · rw [he] at h
    rcases List.mem_cons.1 h with rfl | h
    · rw [info?_of_isPinInfo hmarker] at hi
      simp at hi
    · exact h

theorem merged_true_map (lines : List Line) :
    merged t true (lines.map (·.text)) = merged t false ((withoutStale lines).map (·.text)) := by
  cases lines with
  | nil => rfl
  | cons l rest =>
    by_cases h : isPinInfo l = true
    · rw [withoutStale, if_pos h]
      exact merged_true_cons_of_marker (List.isPrefixOf_iff_prefix.1 h) _
    · rw [withoutStale, if_neg h]
      exact merged_true_cons_of_not_marker (mt List.isPrefixOf_iff_prefix.2 h) _

/-- **Induction along a merge:** line by line, a declaration together with the pin-info line behind
it. -/
theorem merge_induction {motive : List Line → Prop} (nil : motive [])
    (none : ∀ l rest, info? t l.text = none → motive rest → motive (l :: rest))
    (some : ∀ l rest info, info? t l.text = some info → motive (withoutStale rest) →
      motive (l :: rest)) (lines : List Line) : motive lines := by
  induction hlen : lines.length using Nat.strongRecOn generalizing lines with
  | ind n ih =>
    subst hlen
    cases lines with
    | nil => exact nil
    | cons l rest =>
      cases h : info? t l.text with
      | none => exact none l rest h (ih _ (by simp) rest rfl)
      | some info =>
        have hlt : (withoutStale rest).length < (l :: rest).length :=
          Nat.lt_succ_of_le (length_withoutStale_le rest)
        exact some l rest info h (ih _ hlt _ rfl)

/-! ## Counting -/

/-- What is counted when a pin-info line is written: that one was replaced, or that one was put in.
-/
def Stats.wrote (s : Stats) (stale : Bool) : Stats :=
  if stale then { s with replaced := s.replaced + 1 } else { s with inserted := s.inserted + 1 }

/-- The pin-info lines that a merge drops: those right behind a declaration that gets its own. -/
def outdated (t : CellTable) (lines : List Text) : List Text :=
  ((lines.zip lines.tail).filter fun p => (info? t p.1).isSome && marker.isPrefixOf p.2).map (·.2)

/-- What a merge of lines adds to a count. -/
structure Counted (t : CellTable) (lines : List Text) (s s' : Stats) : Prop where
  replaced : s'.replaced = s.replaced + (outdated t lines).length
  written : s'.inserted + s'.replaced =
    s.inserted + s.replaced + lines.countP fun l => (info? t l).isSome
  unmatched : s'.unmatched = s.unmatched ++ lines.filterMap (unknown? t)

theorem outdated_cons_of_none {l : Text} (h : info? t l = none) (rest : List Text) :
    outdated t (l :: rest) = outdated t rest := by
  cases rest <;> simp [outdated, h]

theorem length_outdated_cons_of_some {l info : Text} (h : info? t l = some info)
    (rest : List Text) : (outdated t (l :: rest)).length =
      (outdated t rest).length + if rest.head?.any (marker.isPrefixOf ·) then 1 else 0 := by
  cases rest with
  | nil => simp [outdated]
  | cons x rest => by_cases hx : marker <+: x <;> simp [outdated, h, hx]

theorem unknown?_of_isPinInfo {text : Text} (h : marker <+: text) : unknown? t text = none := by
  simp [unknown?, declared?_of_isPinInfo h]

theorem unknown?_of_info? {text info : Text} (h : info? t text = some info) :
    unknown? t text = none := by
  obtain ⟨name, c, hname, hget, -, -⟩ := info?_eq_some_iff.1 h
  simp [unknown?, hname, hget]

namespace Counted

variable {s s' : Stats}

theorem nil (s : Stats) : Counted t [] s s := ⟨by simp [outdated], by simp, by simp⟩

theorem cons_of_none {l : Text} {rest : List Text} (h : info? t l = none)
    (hrest : Counted t rest { s with unmatched := s.unmatched ++ (unknown? t l).toList } s') :
    Counted t (l :: rest) s s' where
  replaced := by rw [hrest.replaced, outdated_cons_of_none h]
  written := by rw [hrest.written, List.countP_cons_of_neg (by simp [h])]
  unmatched := by
    rw [hrest.unmatched, List.filterMap_cons]
    cases unknown? t l <;> simp

/-- A pin-info line counts for nothing by itself. -/
theorem marker_cons_iff {l : Text} {rest : List Text} (h : marker <+: l) :
    Counted t (l :: rest) s s' ↔ Counted t rest s s' := by
  have hinfo : info? t l = none := info?_of_isPinInfo h
  have hunknown : unknown? t l = none := unknown?_of_isPinInfo h
  constructor
  · intro hc
    exact ⟨by rw [hc.replaced, outdated_cons_of_none hinfo],
      by rw [hc.written, List.countP_cons_of_neg (by simp [hinfo])],
      by rw [hc.unmatched, List.filterMap_cons_none hunknown]⟩
  · exact fun hc => cons_of_none hinfo (by simpa [hunknown] using hc)

theorem withoutStale_iff (lines : List Line) :
    Counted t ((withoutStale lines).map (·.text)) s s' ↔ Counted t (lines.map (·.text)) s s' := by
  rcases withoutStale_cases lines with h | ⟨l, hmarker, h⟩
  · rw [h]
  · conv => rhs; rw [h, List.map_cons]
    exact (marker_cons_iff hmarker).symm

theorem cons_of_some {l info : Text} {rest : List Text} (h : info? t l = some info)
    (hrest : Counted t rest (s.wrote (rest.head?.any (marker.isPrefixOf ·))) s') :
    Counted t (l :: rest) s s' := by
  obtain ⟨hreplaced, hwritten, hunmatched⟩ := hrest
  refine ⟨?_, ?_, ?_⟩
  · rw [hreplaced, length_outdated_cons_of_some h]
    unfold Stats.wrote
    split
    all_goals
      dsimp only
      omega
  · rw [hwritten, List.countP_cons_of_pos (by simp [h])]
    unfold Stats.wrote
    split
    all_goals
      dsimp only
      omega
  · rw [hunmatched, List.filterMap_cons_none (unknown?_of_info? h)]
    unfold Stats.wrote
    split <;> rfl

end Counted

end PinInfo

/-! ## One step of the walk -/

namespace Netlist

variable {n : Netlist} {i : Nat} {s : Stats}

theorem mergeFrom_of_none {l : Line} (hl : n.lines[i]? = some l) (h : info? t l.text = none) :
    n.mergeFrom t i s =
      n.mergeFrom t (i + 1) { s with unmatched := s.unmatched ++ (unknown? t l.text).toList } := by
  conv => lhs; rw [mergeFrom]
  split
  · simp_all
  · rename_i l' hl'
    obtain rfl : l' = l := Option.some.inj (hl'.symm.trans hl)
    split
    · rename_i hnothing
      simp [unknown?_of_lookUp_eq_nothing hnothing]
    · rename_i name hunknown
      simp [unknown?_of_lookUp_eq_unknown hunknown]
    · rename_i info hknown
      rw [lookUp_eq_known_iff.1 hknown] at h
      simp at h

theorem mergeFrom_of_some {l : Line} {text : Text} (hl : n.lines[i]? = some l)
    (h : info? t l.text = some text) :
    n.mergeFrom t i s = match Line.ofText text with
      | .error fault => (n, .error fault)
      | .ok info =>
        if n.lines[i + 1]?.any isPinInfo then
          (n.replace (i + 1) info).mergeFrom t (i + 2) (s.wrote true)
        else (n.insertAfter i info).mergeFrom t (i + 2) (s.wrote false) := by
  conv => lhs; rw [mergeFrom]
  split
  · simp_all
  · rename_i l' hl'
    obtain rfl : l' = l := Option.some.inj (hl'.symm.trans hl)
    rw [lookUp_eq_known_iff.2 h]
    rfl

/-! ### Between the lines before and behind the position -/

theorem replace_append (done rest : List Line) (l next info : Line) :
    replace (done.length + 1) info ⟨done ++ l :: next :: rest⟩ = ⟨(done ++ [l, info]) ++ rest⟩ := by
  simp [replace]

theorem insertAfter_append (done rest : List Line) (l info : Line) :
    insertAfter done.length info ⟨done ++ l :: rest⟩ = ⟨(done ++ [l, info]) ++ rest⟩ := by
  have htake : done.take (done.length + 1) = done := List.take_of_length_le (Nat.le_succ _)
  simp [insertAfter, List.take_append, htake]

theorem mergeFrom_append_nil (done : List Line) (s : Stats) :
    mergeFrom t done.length s ⟨done ++ []⟩ = (⟨done⟩, .ok s) := by
  rw [mergeFrom]
  split
  · rw [List.append_nil]
  · simp_all

/-- **Past a line that gets no pin-info line.** -/
theorem mergeFrom_append_of_none {l : Line} (h : info? t l.text = none) (done rest : List Line)
    (s : Stats) : mergeFrom t done.length s ⟨done ++ l :: rest⟩ =
      mergeFrom t (done ++ [l]).length
        { s with unmatched := s.unmatched ++ (unknown? t l.text).toList }
        ⟨(done ++ [l]) ++ rest⟩ := by
  rw [mergeFrom_of_none (l := l) (by simp) h]
  simp

/-- **Past a line that gets a pin-info line,** which takes the place of an outdated one. -/
theorem mergeFrom_append_of_some {l info : Line} (h : info? t l.text = some info.text)
    (done rest : List Line) (s : Stats) : mergeFrom t done.length s ⟨done ++ l :: rest⟩ =
      mergeFrom t (done ++ [l, info]).length (s.wrote (rest.head?.any isPinInfo))
        ⟨(done ++ [l, info]) ++ withoutStale rest⟩ := by
  rw [mergeFrom_of_some (l := l) (by simp) h, Line.ofText_eq_ok_iff.2 rfl]
  have hnext : (done ++ l :: rest)[done.length + 1]? = rest.head? := by
    cases rest <;> simp
  have hlength : (done ++ [l, info]).length = done.length + 2 := by simp
  simp only [hnext, hlength]
  cases rest with
  | nil => exact congrArg (mergeFrom t _ _) (insertAfter_append done [] l info)
  | cons next after =>
    rw [List.head?_cons, Option.any_some, withoutStale]
    split
    · rename_i hstale
      rw [replace_append, hstale]
    · rename_i hstale
      rw [insertAfter_append, eq_false_of_ne_true hstale]

/-- **The end at a line whose pin-info line is no line.** -/
theorem mergeFrom_append_of_newline {l : Line} {text : Text} (h : info? t l.text = some text)
    (hn : '\n' ∈ text) (done rest : List Line) (s : Stats) :
    mergeFrom t done.length s ⟨done ++ l :: rest⟩ =
      (⟨done ++ l :: rest⟩, .error (.lineFeed text)) := by
  rw [mergeFrom_of_some (l := l) (by simp) h, Line.ofText_eq_error hn]

/-! ## The whole walk -/

/-- **The walk leaves the merged lines and counts what it did** where every pin-info line to be
written is a line. -/
theorem mergeFrom_append {rest : List Line}
    (h : ∀ l ∈ rest, ∀ info, info? t l.text = some info → '\n' ∉ info) (done : List Line)
    (s : Stats) : ∃ lines s', mergeFrom t done.length s ⟨done ++ rest⟩ = (⟨done ++ lines⟩, .ok s') ∧
      lines.map (·.text) = merged t false (rest.map (·.text)) ∧
      Counted t (rest.map (·.text)) s s' := by
  induction rest using merge_induction (t := t) generalizing done s with
  | nil => exact ⟨[], s, by rw [mergeFrom_append_nil, List.append_nil], rfl, .nil s⟩
  | none l rest hi ih =>
    obtain ⟨lines, s', hwalk, hlines, hcounted⟩ :=
      ih (fun l' hl' => h l' (List.mem_cons_of_mem _ hl')) (done ++ [l])
        { s with unmatched := s.unmatched ++ (unknown? t l.text).toList }
    refine ⟨l :: lines, s', ?_, ?_, .cons_of_none hi hcounted⟩
    · rw [mergeFrom_append_of_none hi, hwalk, List.append_assoc, List.singleton_append]
    · rw [List.map_cons, List.map_cons, merged_false_cons_of_none hi, hlines]
  | some l rest text hi ih =>
    let info : Line := ⟨text, h l List.mem_cons_self text hi⟩
    obtain ⟨lines, s', hwalk, hlines, hcounted⟩ :=
      ih (fun l' hl' => h l' (List.mem_cons_of_mem _ (mem_of_mem_withoutStale hl')))
        (done ++ [l, info]) (s.wrote (rest.head?.any isPinInfo))
    have hstale : (rest.map (·.text)).head?.any (marker.isPrefixOf ·) =
        rest.head?.any isPinInfo := by
      cases rest <;> rfl
    refine ⟨l :: info :: lines, s', ?_, ?_, .cons_of_some hi ?_⟩
    · have hinfo : info? t l.text = some info.text := hi
      rw [mergeFrom_append_of_some hinfo, hwalk]
      simp
    · rw [List.map_cons, List.map_cons, List.map_cons, merged_false_cons_of_some hi,
        merged_true_map, hlines]
    · rw [hstale]
      exact (Counted.withoutStale_iff rest).1 hcounted

/-- **A walk that does not fail wrote lines only.** -/
theorem newline_not_mem_of_mergeFrom_eq_ok {done rest : List Line} {s s' : Stats}
    (h : (mergeFrom t done.length s ⟨done ++ rest⟩).2 = .ok s') :
    ∀ l ∈ rest, ∀ info, info? t l.text = some info → '\n' ∉ info := by
  induction rest using merge_induction (t := t) generalizing done s with
  | nil => simp
  | none l rest hi ih =>
    rw [mergeFrom_append_of_none hi] at h
    intro l' hl' info' hi'
    rcases List.mem_cons.1 hl' with rfl | hl'
    · rw [hi] at hi'
      simp at hi'
    · exact ih h l' hl' info' hi'
  | some l rest text hi ih =>
    by_cases hn : '\n' ∈ text
    · rw [mergeFrom_append_of_newline hi hn] at h
      simp at h
    have hinfo : info? t l.text = some (Line.mk text hn).text := hi
    rw [mergeFrom_append_of_some hinfo] at h
    intro l' hl' info' hi'
    rcases List.mem_cons.1 hl' with rfl | hl'
    · rw [hi, Option.some.injEq] at hi'
      rwa [← hi']
    · exact ih h l' (mem_withoutStale_of_info? hl' hi') info' hi'

/-- A walk puts in as many lines as it counts. -/
theorem size_mergeFrom {i : Nat} {n m : Netlist} {s s' : Stats}
    (h : n.mergeFrom t i s = (m, .ok s')) : m.size + s.inserted = n.size + s'.inserted := by
  fun_induction mergeFrom t i s n with
  | case1 i s n hend =>
    simp only [Prod.mk.injEq, Except.ok.injEq] at h
    rw [h.1, h.2]
  | case2 i s n l hl hnothing ih => exact ih h
  | case3 i s n l hl name hunknown ih => exact ih h
  | case4 i s n l hl text hknown fault hfault => simp at h
  | case5 i s n l hl text hknown info hinfo hstale ih =>
    have hsize := ih h
    rwa [size_replace] at hsize
  | case6 i s n l hl text hknown info hinfo hstale ih =>
    have hsize := ih h
    rw [size_insertAfter] at hsize
    dsimp only at hsize
    omega

theorem mergePinInfo_eq_ok {n : Netlist}
    (h : ∀ l ∈ n.texts, ∀ info, info? t l = some info → '\n' ∉ info) :
    ∃ m stats, n.mergePinInfo t = (m, .ok stats) ∧ m.texts = merged t false n.texts ∧
      Counted t n.texts {} stats := by
  have hlines : ∀ l ∈ n.lines, ∀ info, info? t l.text = some info → '\n' ∉ info :=
    fun l hl => h l.text (List.mem_map_of_mem hl)
  obtain ⟨lines, stats, hwalk, htexts, hcounted⟩ := mergeFrom_append hlines [] {}
  exact ⟨⟨lines⟩, stats, hwalk, htexts, hcounted⟩

theorem newline_not_mem_of_mergePinInfo_eq_ok {n : Netlist} {stats : Stats}
    (h : (n.mergePinInfo t).2 = .ok stats) :
    ∀ l ∈ n.texts, ∀ info, info? t l = some info → '\n' ∉ info := by
  have hwalk : (mergeFrom t ([] : List Line).length {} ⟨[] ++ n.lines⟩).2 = .ok stats := h
  intro l hl
  obtain ⟨line, hline, rfl⟩ := List.mem_map.1 hl
  exact newline_not_mem_of_mergeFrom_eq_ok hwalk line hline

/-- **What a merge leaves and counts,** for a table whose port names have no line feed: behind every
declaration of a known cell with ports stands its pin-info line, an outdated one that stood there is
gone, and every other line is as it was. -/
theorem mergePinInfo_eq_merged (t : CellTable) (n : Netlist)
    (hports : ∀ e ∈ t.entries, ∀ p ∈ e.2.ports, '\n' ∉ p.name) :
    ∃ m stats, n.mergePinInfo t = (m, .ok stats) ∧
      m.texts = merged t false n.texts ∧
      stats.replaced = (outdated t n.texts).length ∧
      stats.inserted + stats.replaced = (n.texts.countP fun l => (info? t l).isSome) ∧
      m.size = n.size + stats.inserted ∧
      stats.unmatched = n.texts.filterMap (unknown? t) := by
  obtain ⟨m, stats, hmerge, htexts, hcounted⟩ :=
    mergePinInfo_eq_ok (n := n) fun _ _ _ hi => newline_not_mem_info hports hi
  have hreplaced := hcounted.replaced
  have hwritten := hcounted.written
  have hsize := size_mergeFrom hmerge
  simp only [Nat.zero_add, Nat.add_zero] at hreplaced hwritten hsize
  exact ⟨m, stats, hmerge, htexts, hreplaced, hwritten, hsize, hcounted.unmatched⟩

/-- Two declarations one behind the other, an outdated pin-info line, one behind the declaration of
a cell that the table does not know, and a declaration on the last line. -/
theorem mergePinInfo_eq_merged_four_declarations :
    ∃ m, (Netlist.ofText (".SUBCKT INV A\n.SUBCKT BUF Y\n*.PININFO X:I\n".toList ++
          ".SUBCKT NOR B\n*.PININFO B:B\n.SUBCKT INV A\n".toList)).mergePinInfo
        (.ofList [("INV".toList, ⟨"INV".toList, [⟨"A".toList, .input⟩]⟩),
          ("BUF".toList, ⟨"BUF".toList, [⟨"Y".toList, .output⟩]⟩)]) =
        (m, .ok ⟨2, 1, ["NOR".toList]⟩) ∧
      m.texts = [".SUBCKT INV A", "*.PININFO A:I", ".SUBCKT BUF Y", "*.PININFO Y:O",
        ".SUBCKT NOR B", "*.PININFO B:B", ".SUBCKT INV A", "*.PININFO A:I"].map (·.toList) := by
  obtain ⟨m, ⟨inserted, replaced, unmatched⟩, hmerge, htexts, hreplaced, hwritten, -, hunmatched⟩ :=
    mergePinInfo_eq_merged
      (.ofList [("INV".toList, ⟨"INV".toList, [⟨"A".toList, .input⟩]⟩),
        ("BUF".toList, ⟨"BUF".toList, [⟨"Y".toList, .output⟩]⟩)])
      (Netlist.ofText (".SUBCKT INV A\n.SUBCKT BUF Y\n*.PININFO X:I\n".toList ++
        ".SUBCKT NOR B\n*.PININFO B:B\n.SUBCKT INV A\n".toList)) (by decide)
  obtain rfl : replaced = 1 := hreplaced.trans (by decide)
  obtain rfl : unmatched = ["NOR".toList] := hunmatched.trans (by decide)
  have hthree : inserted + 1 = 3 := hwritten.trans (by decide)
  obtain rfl : inserted = 2 := Nat.add_right_cancel hthree
  exact ⟨m, hmerge, htexts.trans (by decide)⟩

end Netlist

end NetlistPrep
