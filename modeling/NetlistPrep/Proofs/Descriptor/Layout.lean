import NetlistPrep.Proofs.Descriptor.Names

/-!
# Written descriptors

A descriptor is written with a line for every cell, every port and every direction
(`Cell.lines`). The lines may be laid out with either line end, and with blank lines and comments
anywhere between them (`Layout`).

* `Layout.entries_eq`: a layout changes nothing about what the lines are.
* `Quiet` is a reader that goes through entries and notices nothing; `Quiet.of_ports` and
  `Quiet.of_cells` are its way through what is written.
* `entries_parse_of_layout`: every written descriptor is read back, and without a warning.
-/

namespace NetlistPrep

open Text

def Port.lines (p : Port) : List Text :=
  ["    ".toList ++ p.name ++ ":".toList, "      direction: ".toList ++ p.direction.word]

/-- The lines that a cell is written in. -/
def Cell.lines (c : Cell) : List Text := (c.name ++ ":".toList) :: c.ports.flatMap Port.lines

namespace Descriptor

/-- A name that can be written on the line of a cell. -/
structure IsCellName (name : Text) : Prop where
  ne_nil : name ≠ []
  trimmed : IsTrimmed name
  noLineFeed : '\n' ∉ name
  noHash : name.head? ≠ some '#'

/-- A name that can be written on the line of a port. -/
structure IsPortName (name : Text) : Prop where
  ne_nil : name ≠ []
  plain : IsPlain name
  noHash : name.head? ≠ some '#'

/-- A cell that can be written: its ports have different names. -/
structure IsWritable (c : Cell) : Prop where
  name : IsCellName c.name
  ports : ∀ p ∈ c.ports, IsPortName p.name
  nodup : (c.ports.map (·.name)).Nodup

instance (name : Text) : Decidable (IsCellName name) :=
  decidable_of_iff (name ≠ [] ∧ IsTrimmed name ∧ '\n' ∉ name ∧ name.head? ≠ some '#')
    ⟨fun h => ⟨h.1, h.2.1, h.2.2.1, h.2.2.2⟩,
      fun h => ⟨h.ne_nil, h.trimmed, h.noLineFeed, h.noHash⟩⟩

instance (name : Text) : Decidable (IsPortName name) :=
  decidable_of_iff (name ≠ [] ∧ IsPlain name ∧ name.head? ≠ some '#')
    ⟨fun h => ⟨h.1, h.2.1, h.2.2⟩, fun h => ⟨h.ne_nil, h.plain, h.noHash⟩⟩

instance (c : Cell) : Decidable (IsWritable c) :=
  decidable_of_iff (IsCellName c.name ∧ (∀ p ∈ c.ports, IsPortName p.name) ∧
      (c.ports.map (·.name)).Nodup)
    ⟨fun h => ⟨h.1, h.2.1, h.2.2⟩, fun h => ⟨h.name, h.ports, h.nodup⟩⟩

/-- A line without content: blanks, and behind them a comment or nothing. -/
def IsFiller (line : Text) : Prop :=
  '\n' ∉ line ∧ ∃ blanks rest, line = blanks ++ rest ∧ (∀ c ∈ blanks, isBlank c = true) ∧
    (rest = [] ∨ rest.head? = some '#')

def lineEnds : List Text := [['\n'], ['\r', '\n']]

/-- Lines laid out in a text, in their order and with any lines without content between them. The
last line may end with the text. -/
inductive Layout : List Text → Text → Prop
  | filler {f : Text} (hf : IsFiller f) : Layout [] f
  | last (l : Text) : Layout [l] l
  | skip {f e : Text} (hf : IsFiller f) (he : e ∈ lineEnds) {lines : List Text} {t : Text}
      (h : Layout lines t) : Layout lines (f ++ e ++ t)
  | line (l : Text) {e : Text} (he : e ∈ lineEnds) {lines : List Text} {t : Text}
      (h : Layout lines t) : Layout (l :: lines) (l ++ e ++ t)

/-! ## What the lines are -/

theorem ofText_dropReturn (t : Text) : Entry.ofText (dropReturn t) = Entry.ofText t := by
  have hreturn : withoutEnd (dropReturn t ++ ['\r']) = withoutEnd (dropReturn t) :=
    dropEnd_append_of_forall (by simp) _
  rcases eq_or_eq_concat_of_dropReturn t with h | h
  · rw [← h]
  · conv => rhs; rw [h, Entry.ofText, hreturn]
    rfl

theorem map_ofText_lines {l : Text} (hl : '\n' ∉ l) :
    (Text.lines l).map Entry.ofText = [Entry.ofText l] := by
  rw [lines_of_newline_not_mem hl, List.map_singleton, ofText_dropReturn]

/-- A line end ends a line, and at most a carriage return is lost of it. -/
theorem exists_lines_append {l e : Text} (hl : '\n' ∉ l) (he : e ∈ lineEnds) (t : Text) :
    ∃ l', Text.lines (l ++ e ++ t) = l' :: Text.lines t ∧ (l' = l ∨ l' = dropReturn l) := by
  simp only [lineEnds, List.mem_cons, List.not_mem_nil, or_false] at he
  rcases he with rfl | rfl
  · exact ⟨dropReturn l, by rw [List.append_assoc, List.singleton_append, lines_append_newline hl],
      .inr rfl⟩
  · have htext : l ++ ['\r', '\n'] ++ t = (l ++ ['\r']) ++ '\n' :: t := by simp
    have hreturn : '\n' ∉ l ++ ['\r'] := by simpa using hl
    exact ⟨l, by rw [htext, lines_append_newline hreturn, dropReturn_concat], .inl rfl⟩

theorem map_ofText_lines_append {l e : Text} (hl : '\n' ∉ l) (he : e ∈ lineEnds) (t : Text) :
    (Text.lines (l ++ e ++ t)).map Entry.ofText =
      Entry.ofText l :: (Text.lines t).map Entry.ofText := by
  obtain ⟨l', hlines, rfl | rfl⟩ := exists_lines_append hl he t
  · rw [hlines, List.map_cons]
  · rw [hlines, List.map_cons, ofText_dropReturn]

theorem ofText_of_isFiller {f : Text} (h : IsFiller f) : Entry.ofText f = .blank := by
  obtain ⟨-, blanks, rest, rfl, hblanks, hrest⟩ := h
  have hdrop : dropBlanks (blanks ++ rest) = dropBlanks rest :=
    List.dropWhile_append_of_pos hblanks
  rw [entry_ofText, if_neg]
  rintro ⟨hne, hhead⟩
  rw [hdrop] at hne hhead
  rcases hrest with rfl | hhash
  · exact hne rfl
  · obtain ⟨r, rfl⟩ : ∃ r, rest = '#' :: r := by
      cases rest with
      | nil => simp at hhash
      | cons c r => exact ⟨r, by simpa using hhash⟩
    exact hhead rfl

/-- **A layout changes nothing about what the lines are.** -/
theorem Layout.entries_eq {lines : List Text} {t : Text} (h : Layout lines t)
    (hlines : ∀ l ∈ lines, '\n' ∉ l) :
    ((Text.lines t).map Entry.ofText).filter (· ≠ .blank) =
      (lines.map Entry.ofText).filter (· ≠ .blank) := by
  induction h with
  | filler hf =>
    rw [map_ofText_lines hf.1, ofText_of_isFiller hf]
    rfl
  | last l =>
    rw [map_ofText_lines (hlines l List.mem_cons_self)]
    rfl
  | skip hf he _ ih =>
    rw [map_ofText_lines_append hf.1 he, ofText_of_isFiller hf, List.filter_cons_of_neg (by simp)]
    exact ih hlines
  | line l he _ ih =>
    rw [map_ofText_lines_append (hlines l List.mem_cons_self) he, List.map_cons, List.filter_cons,
      List.filter_cons, ih fun l' hl' => hlines l' (List.mem_cons_of_mem _ hl')]

/-! ## What the written lines are -/

/-- A line of so many blanks and a text that begins with no blank and is no comment. -/
theorem significant_blanks_append {blanks : Text} (hblanks : ∀ c ∈ blanks, isBlank c = true)
    {body : Text} (hne : body ≠ []) (hhead : ∀ c ∈ body.head?, isBlank c = false)
    (hhash : body.head? ≠ some '#') :
    Significant (blanks ++ body) ∧ indentation (blanks ++ body) = blanks.length ∧
      dropBlanks (blanks ++ body) = body := by
  obtain ⟨c, r, rfl⟩ := List.exists_cons_of_ne_nil hne
  have hc := hhead c rfl
  have hdrop : dropBlanks (blanks ++ c :: r) = c :: r := by
    rw [dropBlanks, List.dropWhile_append_of_pos hblanks, List.dropWhile_cons_of_neg (by simp [hc])]
  refine ⟨⟨by simp [hdrop], by simpa [hdrop] using hhash⟩, ?_, hdrop⟩
  rw [indentation, List.takeWhile_append_of_pos hblanks, List.takeWhile_cons_of_neg (by simp [hc]),
    List.append_nil]

theorem before_append_colon {name : Text} (h : ':' ∉ name) :
    before ':' (name ++ ":".toList) = name := by
  have hname : ∀ c ∈ name, (c != ':') = true := fun c hc => by
    simpa using fun he : c = ':' => h (he ▸ hc)
  have hcolon : ":".toList.takeWhile (· != ':') = [] := by decide
  rw [before, List.takeWhile_append_of_pos hname, hcolon, List.append_nil]

theorem ofText_cellLine {name : Text} (h : IsCellName name) :
    Entry.ofText (name ++ ":".toList) = .cell name := by
  have hfirst : (name ++ ":".toList).head? = name.head? := List.head?_append_of_ne_nil _ h.ne_nil
  have hindent : ∀ c ∈ ([] : Text), isBlank c = true := by simp
  obtain ⟨hsignificant, hindent, hdrop⟩ := significant_blanks_append hindent
    (List.append_ne_nil_of_left_ne_nil h.ne_nil _) (hfirst ▸ h.trimmed.head) (hfirst ▸ h.noHash)
  rw [List.nil_append] at hsignificant hindent hdrop
  rw [entry_ofText, if_pos hsignificant, hindent, hdrop]
  simp only [List.length_nil]
  rw [before_append_colon h.trimmed.colon, h.trimmed.trim_eq]

theorem ofText_portLine {name : Text} (h : IsPortName name) :
    Entry.ofText ("    ".toList ++ name ++ ":".toList) = .port name := by
  have hfirst : (name ++ ":".toList).head? = name.head? := List.head?_append_of_ne_nil _ h.ne_nil
  have hcolon : ∀ c ∈ ":".toList, ¬ isBlank c = true := List.any_eq_false.1 (by decide)
  have hbody : ∀ c ∈ name ++ ":".toList, isBlank c = false := by
    intro c hc
    rcases List.mem_append.1 hc with hc | hc
    · exact (h.plain c hc).1
    · exact eq_false_of_ne_true (hcolon c hc)
  have hne : name ++ ":".toList ≠ [] := List.append_ne_nil_of_left_ne_nil h.ne_nil _
  have hindent : ∀ c ∈ "    ".toList, isBlank c = true := List.all_eq_true.1 (by decide)
  obtain ⟨hsignificant, hindent, hdrop⟩ := significant_blanks_append hindent hne
    (fun c hc => hbody c (List.mem_of_mem_head? hc)) (hfirst ▸ h.noHash)
  rw [List.append_assoc, entry_ofText, if_pos hsignificant, hindent, hdrop,
    words_of_not_blank hne hbody, List.headD_cons,
    before_append_colon fun hc => (h.plain _ hc).2 rfl]
  rfl

theorem ofText_directionLine (d : Direction) :
    Entry.ofText ("      direction: ".toList ++ d.word) = .direction d := by
  cases d <;> decide

/-! ## The way of a reader -/

/-- A reader that goes through entries and notices nothing, whatever the numbers of the lines. -/
inductive Quiet : Reader → List Entry → Reader → Prop
  | nil (r : Reader) : Quiet r [] r
  | cons {r r' r'' : Reader} {e : Entry} {es : List Entry} (h : ∀ number, r.take number e = r')
      (hrest : Quiet r' es r'') : Quiet r (e :: es) r''

namespace Quiet

variable {r r' r'' : Reader} {es es' : List Entry}

theorem single {e : Entry} (h : ∀ number, r.take number e = r') : Quiet r [e] r' := .cons h (.nil _)

theorem append (h : Quiet r es r') (h' : Quiet r' es' r'') : Quiet r (es ++ es') r'' := by
  induction h with
  | nil => exact h'
  | cons h _ ih => exact .cons h (ih h')

/-- Entries without content are passed over. -/
theorem of_filter (h : Quiet r (es.filter (· ≠ .blank)) r') : Quiet r es r' := by
  induction es generalizing r with
  | nil => exact h
  | cons e es ih =>
    by_cases he : e = .blank
    · rw [List.filter_cons_of_neg (by simp [he])] at h
      exact .cons (fun _ => by rw [he]; rfl) (ih h)
    · rw [List.filter_cons_of_pos (by simpa using he)] at h
      cases h with
      | cons hstep hrest => exact .cons hstep (ih hrest)

theorem feedAll_eq {lines : List Text} (h : Quiet r (lines.map Entry.ofText) r') (number : Int) :
    r.feedAll number lines = r' := by
  induction lines generalizing r number with
  | nil =>
    cases h
    rfl
  | cons l lines ih =>
    cases h with
    | cons hstep hrest =>
      rw [Reader.feedAll, Reader.feed, hstep]
      exact ih hrest _

end Quiet

def portEntries (p : Port) : List Entry := [.port p.name, .direction p.direction]

/-- The entries of the lines that a cell is written in. -/
def cellEntries (c : Cell) : List Entry := .cell c.name :: c.ports.flatMap portEntries

theorem blank_not_mem_cellEntries (c : Cell) : .blank ∉ cellEntries c := by
  intro h
  rcases List.mem_cons.1 h with h | h
  · exact Entry.noConfusion h
  · obtain ⟨p, -, h⟩ := List.mem_flatMap.1 h
    simp [portEntries] at h

theorem map_ofText_cellLines {c : Cell} (h : IsWritable c) :
    c.lines.map Entry.ofText = cellEntries c := by
  have hports : ∀ p ∈ c.ports, p.lines.map Entry.ofText = portEntries p := fun p hp => by
    rw [Port.lines, List.map_cons, List.map_singleton, ofText_portLine (h.ports p hp),
      ofText_directionLine, portEntries]
  rw [Cell.lines, List.map_cons, ofText_cellLine h.name, List.map_flatMap, cellEntries,
    List.flatMap_congr hports]

namespace Quiet

variable {r : Reader} {b : Block}

/-- The reader with a block whose last port is given. -/
def behindPort (r : Reader) (b : Block) (p : Port) : Reader :=
  { r with block := some { b with closed := b.cell.ports, port := some p } }

theorem of_port {p : Port} (hblock : r.block = some b)
    (hfresh : p.name ∉ b.cell.ports.map (·.name)) :
    Quiet r (portEntries p) (behindPort r b p) := by
  have hnone : (b.cell.port? p.name).isSome = false := by
    refine Bool.eq_false_iff.2 fun h => hfresh ?_
    obtain ⟨q, hq, hname⟩ := List.find?_isSome.1 h
    exact List.mem_map.2 ⟨q, hq, by simpa using hname⟩
  have hadd : ∀ number, r.take number (.port p.name) = behindPort r b { name := p.name } := by
    intro number
    simp only [Reader.take, Reader.addPort, hblock, hnone]
    rfl
  exact .cons hadd (.single fun _ => rfl)

/-- **The ports of a cell** come behind those that its block has. -/
theorem of_ports {ports : List Port} (hblock : r.block = some b)
    (hnames : ((b.cell.ports ++ ports).map (·.name)).Nodup) :
    ∃ b', Quiet r (ports.flatMap portEntries) { r with block := some b' } ∧
      b'.counted = b.counted ∧ b'.cell = ⟨b.name, b.cell.ports ++ ports⟩ := by
  induction ports generalizing r b with
  | nil =>
    have hself : { r with block := some b } = r := by rw [← hblock]
    exact ⟨b, hself ▸ .nil r, rfl, by simp [Block.cell]⟩
  | cons p ports ih =>
    have hassoc : b.cell.ports ++ p :: ports = b.cell.ports ++ [p] ++ ports := by simp
    have hfresh : p.name ∉ b.cell.ports.map (·.name) := by
      rw [List.map_append, List.nodup_append] at hnames
      exact fun hp => hnames.2.2 _ hp _ (List.mem_map_of_mem List.mem_cons_self) rfl
    rw [hassoc] at hnames ⊢
    obtain ⟨b', hrest, hcounted, hcell⟩ := ih (r := behindPort r b p) rfl hnames
    exact ⟨b', (of_port hblock hfresh).append hrest, hcounted, hcell⟩

/-- The reader in the block of a cell that begins. -/
def inCell (r : Reader) (name : Text) : Reader :=
  { r with before := r.table, block := some { name, counted := true } }

/-- One more cell, whose name is new. -/
theorem of_cell {c : Cell} (hfresh : c.name ∉ r.table.keys)
    (hports : (c.ports.map (·.name)).Nodup) :
    ∃ r', Quiet r (cellEntries c) r' ∧ r'.remarks = r.remarks ∧
      r'.table.entries = r.table.entries ++ [(c.name, c)] := by
  have hbegin : ∀ number, r.take number (.cell c.name) = inCell r c.name := by
    intro number
    have hcontains : r.table.keys.contains c.name = false := by simpa using hfresh
    simp only [Reader.take, Reader.beginCell, hcontains]
    rfl
  obtain ⟨b, hrest, hcounted, hcell⟩ := of_ports (r := inCell r c.name) rfl hports
  refine ⟨_, .cons hbegin hrest, rfl, ?_⟩
  have hname : b.name = c.name := congrArg Cell.name hcell
  simp only [Reader.table, hcounted, if_true, hname]
  rw [hcell]
  exact entries_insert_of_not_mem hfresh _

/-- **Cells of different names** come behind those that the reader has. -/
theorem of_cells {cells : List Cell} (hcells : ∀ c ∈ cells, (c.ports.map (·.name)).Nodup)
    (hnames : (r.table.keys ++ cells.map (·.name)).Nodup) :
    ∃ r', Quiet r (cells.flatMap cellEntries) r' ∧ r'.remarks = r.remarks ∧
      r'.table.entries = r.table.entries ++ cells.map fun c => (c.name, c) := by
  induction cells generalizing r with
  | nil => exact ⟨r, .nil r, rfl, (List.append_nil _).symm⟩
  | cons c cells ih =>
    have hfresh : c.name ∉ r.table.keys := by
      rw [List.nodup_append] at hnames
      exact fun hc => hnames.2.2 _ hc _ List.mem_cons_self rfl
    obtain ⟨r₁, hfirst, hremarks₁, htable₁⟩ := of_cell hfresh (hcells c List.mem_cons_self)
    have hkeys : r₁.table.keys ++ cells.map (·.name) =
        r.table.keys ++ (c :: cells).map (·.name) := by
      simp [CellTable.keys, htable₁]
    obtain ⟨r₂, hrest, hremarks₂, htable₂⟩ :=
      ih (fun d hd => hcells d (List.mem_cons_of_mem _ hd)) (hkeys ▸ hnames)
    refine ⟨r₂, hfirst.append hrest, hremarks₂.trans hremarks₁, ?_⟩
    rw [htable₂, htable₁]
    simp

end Quiet

/-! ## The whole text -/

theorem newline_not_mem_cellLines {c : Cell} (h : IsWritable c) : ∀ l ∈ c.lines, '\n' ∉ l := by
  have hcolon : '\n' ∉ ":".toList := by decide
  intro l hl
  rcases List.mem_cons.1 hl with rfl | hl
  · simp only [List.mem_append, not_or]
    exact ⟨h.name.noLineFeed, hcolon⟩
  · obtain ⟨p, hp, hl⟩ := List.mem_flatMap.1 hl
    simp only [Port.lines, List.mem_cons, List.not_mem_nil, or_false] at hl
    rcases hl with rfl | rfl
    · have hindent : '\n' ∉ "    ".toList := by decide
      simp only [List.mem_append, not_or]
      exact ⟨⟨hindent, (h.ports p hp).plain.newline_not_mem⟩, hcolon⟩
    · cases p.direction <;> decide

/-- **Every written descriptor is read back,** and without a warning: cells of different names, each
with ports of different names, in any layout of their lines. -/
theorem entries_parse_of_layout {cells : List Cell} (hcells : ∀ c ∈ cells, IsWritable c)
    (hnames : (cells.map (·.name)).Nodup) {t : Text} (h : Layout (cells.flatMap Cell.lines) t) :
    (parse t).entries = cells.map (fun c => (c.name, c)) ∧ (read t).warnings = [] := by
  have hlines : ∀ l ∈ cells.flatMap Cell.lines, '\n' ∉ l := by
    intro l hl
    obtain ⟨c, hc, hl⟩ := List.mem_flatMap.1 hl
    exact newline_not_mem_cellLines (hcells c hc) l hl
  have hwritten : (cells.flatMap Cell.lines).map Entry.ofText = cells.flatMap cellEntries := by
    rw [List.map_flatMap]
    exact List.flatMap_congr fun c hc => map_ofText_cellLines (hcells c hc)
  obtain ⟨r, hquiet, hremarks, htable⟩ := Quiet.of_cells (r := {})
    (fun c hc => (hcells c hc).nodup) (by simpa [Reader.table, CellTable.empty, CellTable.keys])
  have hread : read t = r := by
    refine Quiet.feedAll_eq (.of_filter ?_) 1
    rw [h.entries_eq hlines, hwritten, List.filter_eq_self.2]
    · exact hquiet
    · intro e he
      obtain ⟨c, -, he⟩ := List.mem_flatMap.1 he
      simpa using fun hblank : e = .blank => blank_not_mem_cellEntries c (hblank ▸ he)
  rw [parse, hread]
  exact ⟨htable, by rw [Reader.warnings, hremarks]; rfl⟩

/-- Two cells, the name of one with a blank in it. -/
def gates : List Cell :=
  [⟨"inv x2#".toList, [⟨"A".toList, .input⟩, ⟨"Y#".toList, .output⟩]⟩, ⟨"tie".toList, []⟩]

/-- A text in which they are written, with comments, an empty line and both line ends. -/
def gatesText : Text :=
  ("# gates\r\ninv x2#:\r\n    A:\n      direction: in\r\n\n  # a:\n    Y#:\n" ++
    "      direction: out\r\ntie:").toList

theorem layout_gatesText : Layout (gates.flatMap Cell.lines) gatesText := by
  have hfeed : ['\n'] ∈ lineEnds := by decide
  have hreturn : ['\r', '\n'] ∈ lineEnds := by decide
  have hgates : IsFiller "# gates".toList := ⟨by decide, [], _, rfl, by simp, by decide⟩
  have hempty : IsFiller [] := ⟨by decide, [], _, rfl, by simp, by decide⟩
  have hblanks : ∀ c ∈ "  ".toList, isBlank c = true := List.all_eq_true.1 (by decide)
  have hnote : IsFiller "  # a:".toList :=
    ⟨by decide, "  ".toList, "# a:".toList, by decide, hblanks, by decide⟩
  exact .skip hgates hreturn <| .line _ hreturn <| .line _ hfeed <| .line _ hreturn <|
    .skip hempty hfeed <| .skip hnote hfeed <| .line _ hfeed <| .line _ hreturn <| .last _

/-- Two kinds of line ends, empty lines and comments between the lines of two cells. -/
theorem entries_parse_of_layout_gates :
    (∀ c ∈ gates, IsWritable c) ∧ (gates.map (·.name)).Nodup ∧
      Layout (gates.flatMap Cell.lines) gatesText ∧
      (parse gatesText).entries = gates.map (fun c => (c.name, c)) ∧
      (read gatesText).warnings = [] := by
  have hcells : ∀ c ∈ gates, IsWritable c := by decide
  have hnames : (gates.map (·.name)).Nodup := by decide
  exact ⟨hcells, hnames, layout_gatesText,
    entries_parse_of_layout hcells hnames layout_gatesText⟩

end Descriptor

end NetlistPrep
