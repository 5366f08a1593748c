import NetlistPrep.PinInfo
import NetlistPrep.Proofs.Outcome
import NetlistPrep.Proofs.Recovery
import NetlistPrep.Proofs.Rows

/-!
# Declarations and their pin information

* `declared?` depends on the words of a line only, so neither a carriage return at its end nor
  recovered fields change what it declares (`declared?_dropReturn`, `declared?_text_ofLine`).
* `merged` says what a merge leaves: a pin-info line behind every declaration that the table knows
  with ports, and none of the pin-info lines that stood there before.
* `merged_map_merged`: merging again changes nothing, also where the lines were rewritten in
  between, as long as the rewriting keeps the lines and leaves pin-info lines recognisable.
-/

namespace NetlistPrep.PinInfo

open Text

/-! ## Declarations -/

theorem declared?_of_words_eq {a b : Text} (h : words a = words b) : declared? a = declared? b := by
  simp only [declared?, h]

@[simp]
theorem declared?_dropReturn (line : Text) : declared? (dropReturn line) = declared? line :=
  declared?_of_words_eq (words_dropReturn line)

theorem declared?_cons_star (t : Text) : declared? ('*' :: t) = none := by
  obtain ⟨w, ws, hw⟩ := words_cons (show isBlank '*' = false by decide) t
  have hne : '*' :: w ≠ declarationWord := by
    intro he
    exact absurd (List.cons.inj he).1 (by decide)
  rw [declared?, hw]
  cases ws with
  | nil => rfl
  | cons v vs => exact if_neg hne

theorem declared?_eq_some_iff {line name : Text} :
    declared? line = some name ↔ ∃ ws, words line = declarationWord :: name :: ws := by
  unfold declared?
  split
  · rename_i word name' ws hw
    simp only [hw, Option.ite_none_right_eq_some, Option.some.injEq, List.cons.injEq]
    constructor
    · rintro ⟨rfl, rfl⟩
      exact ⟨ws, rfl, rfl, rfl⟩
    · rintro ⟨_, rfl, rfl, -⟩
      exact ⟨rfl, rfl⟩
  · rename_i hw
    simp only [reduceCtorEq, false_iff, not_exists]
    exact fun ws h => hw _ _ ws h

theorem declared?_append_blank {line name : Text} (h : declared? line = some name) (b : Text) :
    declared? (line ++ ' ' :: b) = some name := by
  obtain ⟨ws, hw⟩ := declared?_eq_some_iff.1 h
  refine declared?_eq_some_iff.2 ⟨ws ++ words b, ?_⟩
  rw [words_append_blank (by decide), hw]
  rfl

/-- A line with an equals sign that declares nothing declares nothing with more behind it: the
equals sign is in a word, so the line has a first word other than the declaration word, or a second
one. -/
theorem declared?_append_blank_eq_none {line : Text} (h : declared? line = none) (heq : '=' ∈ line)
    (b : Text) : declared? (line ++ ' ' :: b) = none := by
  obtain ⟨w, hw, hwe⟩ := exists_word_of_mem (show isBlank '=' = false by decide) heq
  rw [Option.eq_none_iff_forall_ne_some]
  intro name hname
  obtain ⟨ws, hws⟩ := declared?_eq_some_iff.1 hname
  rw [words_append_blank (by decide)] at hws
  cases hline : words line with
  | nil => simp [hline] at hw
  | cons u us =>
    rw [hline, List.cons_append, List.cons.injEq] at hws
    obtain ⟨rfl, hws⟩ := hws
    cases us with
    | nil =>
      rw [hline, List.mem_singleton] at hw
      exact absurd (hw ▸ hwe) (by decide)
    | cons v vs =>
      rw [declared?_eq_some_iff.2 ⟨vs, hline⟩] at h
      simp at h

/-- **Recovered fields do not change what a line declares.** -/
theorem declared?_text_ofLine (line : Text) :
    declared? (Recovery.ofLine line).text = declared? line := by
  by_cases heq : '=' ∈ line
  · rw [Recovery.text_ofLine]
    cases (Recovery.ofLine line).fields with
    | nil => simp
    | cons f fs =>
      rw [List.flatMap_cons, Recovery.fieldText, List.cons_append]
      cases h : declared? line with
      | none => exact declared?_append_blank_eq_none h heq _
      | some name => exact declared?_append_blank h _
  · rw [Recovery.text_ofLine_of_not_mem heq]

/-! ## Pin-info lines -/

/-- The pin-info line that a table gives a line: that of the cell it declares, if the table knows
the cell with ports. -/
def info? (t : CellTable) (text : Text) : Option Text :=
  (((declared? text).bind t.get?).filter fun c => c.ports ≠ []).map line

theorem lookUp_eq_known_iff {t : CellTable} {text info : Text} :
    lookUp t text = .known info ↔ info? t text = some info := by
  unfold lookUp info?
  cases declared? text with
  | none => simp
  | some name =>
    cases hc : t.get? name with
    | none => simp [hc]
    | some c =>
      by_cases hp : c.ports = []
      · simp [hc, hp]
      · simp [hc, hp]

theorem info?_eq_some_iff {t : CellTable} {text info : Text} :
    info? t text = some info ↔ ∃ name c, declared? text = some name ∧ t.get? name = some c ∧
      c.ports ≠ [] ∧ line c = info := by
  constructor
  · intro h
    obtain ⟨c, hc, hinfo⟩ := Option.map_eq_some_iff.1 h
    obtain ⟨hc, hports⟩ := Option.filter_eq_some_iff.1 hc
    obtain ⟨name, hname, hget⟩ := Option.bind_eq_some_iff.1 hc
    exact ⟨name, c, hname, hget, of_decide_eq_true hports, hinfo⟩
  · rintro ⟨name, c, hname, hget, hports, rfl⟩
    simp [info?, hname, hget, hports]

theorem info?_of_declared?_eq {t : CellTable} {a b : Text} (h : declared? a = declared? b) :
    info? t a = info? t b := by
  rw [info?, info?, h]

theorem info?_of_declared?_eq_none {t : CellTable} {a : Text} (h : declared? a = none) :
    info? t a = none := by
  simp [info?, h]

theorem info?_empty (text : Text) : info? .empty text = none := by
  unfold info?
  cases declared? text <;> rfl

/-- Where there is a pin-info line, there is a table that gives it. -/
theorem exists_table_of_info? {cells : Option CellTable} {text info : Text}
    (h : info? (cells.getD .empty) text = some info) :
    ∃ table, cells = some table ∧ info? table text = some info := by
  cases cells with
  | none =>
    rw [Option.getD_none, info?_empty] at h
    simp at h
  | some table => exact ⟨table, rfl, h⟩

/-- A pin-info line is the marker with the tokens of the ports behind it, each behind a blank. -/
theorem line_eq (c : Cell) : line c = marker ++ c.ports.flatMap fun p => ' ' :: token p :=
  intercalate_cons_map ' ' marker token c.ports

theorem marker_prefix_of_info? {t : CellTable} {text info : Text} (h : info? t text = some info) :
    marker <+: info := by
  obtain ⟨_, c, -, -, -, rfl⟩ := info?_eq_some_iff.1 h
  rw [line_eq]
  exact List.prefix_append _ _

theorem declared?_of_isPinInfo {text : Text} (h : marker <+: text) : declared? text = none := by
  obtain ⟨r, rfl⟩ := h
  exact declared?_cons_star _

theorem newline_not_mem_line {c : Cell} (h : ∀ p ∈ c.ports, '\n' ∉ p.name) : '\n' ∉ line c := by
  have hcode : ∀ d : Direction, '\n' ≠ d.code := by
    intro d
    cases d <;> decide
  rw [line_eq, List.mem_append, not_or, List.mem_flatMap]
  refine ⟨by decide, ?_⟩
  rintro ⟨p, hp, hm⟩
  simp only [token, List.mem_cons, List.mem_append, List.not_mem_nil, or_false] at hm
  rcases hm with hm | hm | hm | hm
  · exact absurd hm (by decide)
  · exact h p hp hm
  · exact absurd hm (by decide)
  · exact hcode p.direction hm

theorem getLast?_line_ne_return (c : Cell) : (line c).getLast? ≠ some '\r' := by
  have hcode : ∀ d : Direction, d.code ≠ '\r' := by
    intro d
    cases d <;> decide
  rw [line_eq]
  rcases List.eq_nil_or_concat c.ports with h | ⟨ps, p, h⟩
  · rw [h]
    decide
  · have htoken : ' ' :: token p = (' ' :: p.name ++ [':']) ++ [p.direction.code] := by
      simp [token]
    rw [h, List.concat_eq_append, List.flatMap_append, List.flatMap_singleton, htoken,
      ← List.append_assoc, ← List.append_assoc, List.getLast?_concat]
    simpa using hcode p.direction

theorem newline_not_mem_info {t : CellTable} {text info : Text}
    (h : ∀ e ∈ t.entries, ∀ p ∈ e.2.ports, '\n' ∉ p.name) (hi : info? t text = some info) :
    '\n' ∉ info := by
  obtain ⟨name, c, -, hget, -, rfl⟩ := info?_eq_some_iff.1 hi
  exact newline_not_mem_line (h _ (Rows.mem_of_lookup_eq_some hget))

theorem getLast?_info_ne_return {t : CellTable} {text info : Text} (h : info? t text = some info) :
    info.getLast? ≠ some '\r' := by
  obtain ⟨_, c, -, -, -, rfl⟩ := info?_eq_some_iff.1 h
  exact getLast?_line_ne_return c

/-! ## Merging -/

/-- The lines that a merge leaves. `stale` tells that the line at hand stands right behind a
declaration, where a pin-info line is one that was written before and is left out. -/
def merged (t : CellTable) : Bool → List Text → List Text
  | _, [] => []
  | stale, l :: rest =>
    if stale && marker.isPrefixOf l then merged t false rest
    else match info? t l with
      | some info => l :: info :: merged t true rest
      | none => l :: merged t false rest

variable {t : CellTable}

@[simp]
theorem merged_nil (stale : Bool) : merged t stale [] = [] := rfl

theorem merged_cons (t : CellTable) (stale : Bool) (l : Text) (rest : List Text) :
    merged t stale (l :: rest) =
      if stale && marker.isPrefixOf l then merged t false rest
      else match info? t l with
        | some info => l :: info :: merged t true rest
        | none => l :: merged t false rest := rfl

theorem merged_false_cons_of_some {l info : Text} (h : info? t l = some info) (rest : List Text) :
    merged t false (l :: rest) = l :: info :: merged t true rest := by
  simp [merged_cons, h]

theorem merged_false_cons_of_none {l : Text} (h : info? t l = none) (rest : List Text) :
    merged t false (l :: rest) = l :: merged t false rest := by
  simp [merged_cons, h]

theorem merged_true_cons_of_marker {l : Text} (h : marker <+: l) (rest : List Text) :
    merged t true (l :: rest) = merged t false rest := by
  simp [merged_cons, h]

theorem merged_true_cons_of_not_marker {l : Text} (h : ¬ marker <+: l) (rest : List Text) :
    merged t true (l :: rest) = merged t false (l :: rest) := by
  simp [merged_cons, h]

theorem info?_of_isPinInfo {text : Text} (h : marker <+: text) : info? t text = none :=
  info?_of_declared?_eq_none (declared?_of_isPinInfo h)

/-- The name that a line declares and the table does not know. -/
def unknown? (t : CellTable) (text : Text) : Option Text :=
  (declared? text).filter fun name => (t.get? name).isNone

theorem unknown?_of_lookUp_eq_nothing {text : Text} (h : lookUp t text = .nothing) :
    unknown? t text = none := by
  unfold lookUp at h
  unfold unknown?
  cases hd : declared? text with
  | none => rfl
  | some name => cases hc : t.get? name <;> simp_all

theorem unknown?_of_lookUp_eq_unknown {text name : Text} (h : lookUp t text = .unknown name) :
    unknown? t text = some name := by
  unfold lookUp at h
  unfold unknown?
  cases hd : declared? text with
  | none => simp [hd] at h
  | some name' =>
    cases hc : t.get? name' with
    | none =>
      simp only [hd, hc, Match.unknown.injEq] at h
      simp [h ▸ hc, h]
    | some c =>
      simp only [hd, hc] at h
      split at h <;> simp at h

/-! ## The merged lines -/

theorem merged_empty (lines : List Text) : merged .empty false lines = lines := by
  induction lines with
  | nil => rfl
  | cons l rest ih => rw [merged_false_cons_of_none (info?_empty l), ih]

theorem merged_append {front : List Text} (h : ∀ l ∈ front, info? t l = none) (lines : List Text) :
    merged t false (front ++ lines) = front ++ merged t false lines := by
  induction front with
  | nil => rfl
  | cons l front ih =>
    rw [List.cons_append, merged_false_cons_of_none (h l List.mem_cons_self),
      ih fun l' hl' => h l' (List.mem_cons_of_mem _ hl')]
    rfl

/-- Every merged line was there before or is the pin-info line of one that was. -/
theorem mem_of_mem_merged {x : Text} {stale : Bool} {lines : List Text}
    (h : x ∈ merged t stale lines) : x ∈ lines ∨ ∃ l ∈ lines, info? t l = some x := by
  induction lines generalizing stale with
  | nil => simp at h
  | cons l rest ih =>
    have hrest : ∀ stale, x ∈ merged t stale rest →
        x ∈ l :: rest ∨ ∃ l' ∈ l :: rest, info? t l' = some x := by
      intro stale hx
      rcases ih hx with hx | ⟨l', hl', hi⟩
      · exact .inl (List.mem_cons_of_mem _ hx)
      · exact .inr ⟨l', List.mem_cons_of_mem _ hl', hi⟩
    rw [merged_cons] at h
    split at h
    · exact hrest false h
    · split at h
      · rename_i info hi
        rcases List.mem_cons.1 h with rfl | h
        · exact .inl List.mem_cons_self
        rcases List.mem_cons.1 h with rfl | h
        · exact .inr ⟨l, List.mem_cons_self, hi⟩
        · exact hrest true h
      · rcases List.mem_cons.1 h with rfl | h
        · exact .inl List.mem_cons_self
        · exact hrest false h

/-- A merge drops pin-info lines only. -/
theorem mem_merged_of_mem {l : Text} {lines : List Text} (h : l ∈ lines) (hl : ¬ marker <+: l)
    (stale : Bool) : l ∈ merged t stale lines := by
  induction lines generalizing stale with
  | nil => simp at h
  | cons l' rest ih =>
    rw [merged_cons]
    split
    · rename_i hstale
      rcases List.mem_cons.1 h with rfl | h
      · simp [hl] at hstale
      · exact ih h false
    · split
      all_goals
        rcases List.mem_cons.1 h with rfl | h
        · exact List.mem_cons_self
      · exact List.mem_cons_of_mem _ (List.mem_cons_of_mem _ (ih h true))
      · exact List.mem_cons_of_mem _ (ih h false)

/-- **Merging twice is merging once,** whatever happens in between to the pin-info lines that the
first merge wrote, as long as they still begin as such. -/
theorem merged_map_merged {g : Text → Text} {lines : List Text} (hlines : ∀ l ∈ lines, g l = l)
    (hinfo : ∀ l info, info? t l = some info → marker <+: g info) (stale : Bool) :
    merged t false ((merged t stale lines).map g) = merged t stale lines := by
  induction lines generalizing stale with
  | nil => rfl
  | cons l rest ih =>
    have hl : g l = l := hlines l List.mem_cons_self
    have ih := ih fun l' hl' => hlines l' (List.mem_cons_of_mem _ hl')
    rw [merged_cons]
    split
    · exact ih false
    · split
      · rename_i info hi
        rw [List.map_cons, List.map_cons, hl, merged_false_cons_of_some hi,
          merged_true_cons_of_marker (hinfo l info hi), ih true]
      · rename_i hi
        rw [List.map_cons, hl, merged_false_cons_of_none hi, ih false]

end NetlistPrep.PinInfo
