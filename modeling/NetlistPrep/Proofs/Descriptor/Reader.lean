import NetlistPrep.Proofs.Descriptor.Meaning
import Mathlib.Data.List.Induction

/-!
# The reader computes the meaning

A reader that has taken some lines stands in the block of the last cell line among them, and in it
at the last port line.

* `PortsRead` and `BlocksRead` are the two halves of this invariant: what is finished is the meaning
  of the lines in front of the last line with a key, and what is at hand comes from the lines behind
  it.
* `HasRead.feed` is the step: one more line keeps the invariant, and what the reader notes is
  what there is to note.
* `entries_parse_and_warnings_read` is the whole reading.
* `parse_congr`: empty lines count for nothing.
-/

namespace NetlistPrep.Descriptor

/-! ## Ports -/

/-- The ports at hand after the lines of a block: those in front of the last port line are closed,
and the port of that line may get a direction, unless its name came before. -/
inductive PortsRead : List Text → List Port → Option Port → Prop
  | start {block : List Text} (hblock : ∀ l ∈ block, portName? l = none) : PortsRead block [] none
  | behind {front rest : List Text} {line name : Text} (hline : portName? line = some name)
      (hrest : ∀ l ∈ rest, portName? l = none) :
      PortsRead (front ++ line :: rest) (ports front)
        (if name ∈ front.filterMap portName? then none else some ⟨name, lastDirection rest⟩)

namespace PortsRead

variable {block : List Text} {closed : List Port} {port : Option Port} {x : Text}

theorem append_toList_eq (h : PortsRead block closed port) :
    closed ++ port.toList = ports block := by
  cases h with
  | start hblock =>
    rw [ports_of_forall hblock]
    rfl
  | behind hline hrest =>
    rw [ports_append_cons hline hrest]
    split
    · exact List.append_nil _
    · rfl

theorem concat_other (h : PortsRead block closed port) (hport : portName? x = none)
    (hdirection : direction? x = none) : PortsRead (block ++ [x]) closed port := by
  cases h with
  | start hblock =>
    exact .start (by simpa [or_imp, forall_and] using ⟨hblock, hport⟩)
  | @behind front rest line name hline hrest =>
    have hlast : lastDirection (rest ++ [x]) = lastDirection rest := by
      simp [lastDirection, hdirection]
    rw [List.append_assoc, List.cons_append, ← hlast]
    exact .behind hline (by simpa [or_imp, forall_and] using ⟨hrest, hport⟩)

theorem concat_direction (h : PortsRead block closed port) {d : Direction}
    (hport : portName? x = none) (hdirection : direction? x = some d) :
    PortsRead (block ++ [x]) closed (port.map fun p => { p with direction := d }) := by
  cases h with
  | start hblock =>
    exact .start (by simpa [or_imp, forall_and] using ⟨hblock, hport⟩)
  | @behind front rest line name hline hrest =>
    have hlast : lastDirection (rest ++ [x]) = d := by
      simp [lastDirection, hdirection]
    have hmap : (if name ∈ front.filterMap portName? then none
          else some (⟨name, lastDirection rest⟩ : Port)).map (fun p => { p with direction := d }) =
        if name ∈ front.filterMap portName? then none
        else some ⟨name, lastDirection (rest ++ [x])⟩ := by
      rw [hlast]
      split <;> rfl
    rw [List.append_assoc, List.cons_append, hmap]
    exact .behind hline (by simpa [or_imp, forall_and] using ⟨hrest, hport⟩)

theorem concat_port (h : PortsRead block closed port) {name : Text}
    (hport : portName? x = some name) :
    PortsRead (block ++ [x]) (closed ++ port.toList)
      (if name ∈ block.filterMap portName? then none else some { name }) := by
  rw [h.append_toList_eq]
  exact .behind hport (by simp)

end PortsRead

theorem port?_isSome_iff {c : Cell} {block : List Text} (h : c.ports = ports block) (name : Text) :
    (c.port? name).isSome = true ↔ name ∈ block.filterMap portName? := by
  have hnames : c.ports.map (·.name) = (block.filterMap portName?).eraseDups := by
    rw [h, map_name_ports]
  have hmem : name ∈ c.ports.map (·.name) ↔ name ∈ block.filterMap portName? := by
    rw [hnames, List.mem_eraseDups]
  rw [← hmem, Cell.port?, List.find?_isSome]
  simp

/-! ## Blocks -/

theorem entries_insert_of_not_mem {t : CellTable} {key : Text} (h : key ∉ t.keys) (c : Cell) :
    (t.insert key c).entries = t.entries ++ [(key, c)] := by
  rw [CellTable.insert, dif_neg h]

/-- The cells at hand after lines: those in front of the last cell line are before the block, and
the ports of that line are read into it. -/
inductive BlocksRead : List Text → List (Text × Cell) → Option Block → Prop
  | start {lines : List Text} (hlines : ∀ l ∈ lines, cellName? l = none) : BlocksRead lines [] none
  | behind {front rest : List Text} {line : Text} {b : Block} (hline : cellName? line = some b.name)
      (hrest : ∀ l ∈ rest, cellName? l = none) (hports : PortsRead rest b.closed b.port)
      (hcounted : b.counted = decide (b.name ∉ front.filterMap cellName?)) :
      BlocksRead (front ++ line :: rest) (cells front) (some b)

namespace BlocksRead

variable {lines : List Text} {r : Reader}

/-- **The table of a reader is the meaning of the lines it has taken.** -/
theorem entries_table (h : BlocksRead lines r.before.entries r.block) :
    r.table.entries = cells lines := by
  obtain ⟨before, block, remarks⟩ := r
  simp only at h
  generalize hentries : before.entries = entries at h
  cases h with
  | start hlines =>
    rw [cells_of_forall hlines]
    exact hentries
  | @behind front rest line b hline hrest hports hcounted =>
    have hcell : b.cell = ⟨b.name, ports rest⟩ := by rw [Block.cell, hports.append_toList_eq]
    have hkeys : b.name ∈ before.keys ↔ b.name ∈ front.filterMap cellName? := by
      rw [CellTable.keys, hentries, map_fst_cells, List.mem_eraseDups]
    rw [cells_append_cons hline hrest]
    by_cases hname : b.name ∈ front.filterMap cellName?
    · simp [Reader.table, hcounted, hname, hentries]
    · simp [Reader.table, hcounted, hname, entries_insert_of_not_mem (mt hkeys.1 hname), hentries,
        hcell]

theorem contains_keys_table (h : BlocksRead lines r.before.entries r.block) (name : Text) :
    r.table.keys.contains name = decide (name ∈ lines.filterMap cellName?) := by
  rw [CellTable.keys, h.entries_table, map_fst_cells, List.contains_eq_mem]
  simp only [List.mem_eraseDups]

/-! ### One more line -/

variable {x : Text} {entries : List (Text × Cell)} {block : Option Block}

theorem concat_of_ports {front rest : List Text} {line : Text} {b b' : Block}
    (hline : cellName? line = some b.name) (hrest : ∀ l ∈ rest, cellName? l = none)
    (hcounted : b.counted = decide (b.name ∉ front.filterMap cellName?))
    (hx : cellName? x = none) (hname : b'.name = b.name) (hcounted' : b'.counted = b.counted)
    (hports : PortsRead (rest ++ [x]) b'.closed b'.port) :
    BlocksRead (front ++ line :: rest ++ [x]) (cells front) (some b') := by
  rw [List.append_assoc, List.cons_append]
  refine .behind (hname ▸ hline) ?_ hports (by rw [hcounted', hcounted, hname])
  simpa [or_imp, forall_and] using ⟨hrest, hx⟩

theorem concat_start (hlines : ∀ l ∈ lines, cellName? l = none) (hx : cellName? x = none) :
    BlocksRead (lines ++ [x]) [] none :=
  .start (by simpa [or_imp, forall_and] using ⟨hlines, hx⟩)

theorem concat_other (h : BlocksRead lines entries block) (hcell : cellName? x = none)
    (hport : portName? x = none) (hdirection : direction? x = none) :
    BlocksRead (lines ++ [x]) entries block := by
  cases h with
  | start hlines => exact concat_start hlines hcell
  | behind hline hrest hports hcounted =>
    exact concat_of_ports hline hrest hcounted hcell rfl rfl (hports.concat_other hport hdirection)

theorem concat_direction (h : BlocksRead lines entries block) {d : Direction}
    (hcell : cellName? x = none) (hport : portName? x = none) (hdirection : direction? x = some d) :
    BlocksRead (lines ++ [x]) entries (block.map fun b =>
      { b with port := b.port.map fun p => { p with direction := d } }) := by
  cases h with
  | start hlines => exact concat_start hlines hcell
  | behind hline hrest hports hcounted =>
    exact concat_of_ports hline hrest hcounted hcell rfl rfl
      (hports.concat_direction hport hdirection)

end BlocksRead

/-! ## Warnings -/

theorem Reader.warnings_remark (r : Reader) (number : Int) (note : Note) :
    (r.remark number note).warnings =
      r.warnings ++ if note.level = .warning then [note.message number] else [] := by
  by_cases h : note.level = .warning <;> simp [Reader.warnings, Reader.remark, h]

variable {lines : List Text} {x : Text} {name : Text}

theorem noteAt_of_cell (h : cellName? x = some name) :
    noteAt lines x =
      if name ∈ lines.filterMap cellName? then some (.repeatedCell name) else none := by
  simp only [noteAt, h]

theorem noteAt_of_other (hcell : cellName? x = none) (hport : portName? x = none) :
    noteAt lines x = none := by
  simp only [noteAt, hcell, hport]

theorem noteAt_of_port_start (hcell : cellName? x = none) (hport : portName? x = some name)
    (hlines : ∀ l ∈ lines, cellName? l = none) : noteAt lines x = some (.portOutside name) := by
  simp only [noteAt, hcell, hport, List.filterMap_eq_nil_iff.2 hlines, List.getLast?_nil]

theorem noteAt_of_port_behind {front rest : List Text} {line cell : Text}
    (hcell : cellName? x = none) (hport : portName? x = some name)
    (hline : cellName? line = some cell) (hrest : ∀ l ∈ rest, cellName? l = none) :
    noteAt (front ++ line :: rest) x =
      if name ∈ rest.filterMap portName? then some (.repeatedPort name cell) else none := by
  have hlast : ((front ++ line :: rest).filterMap cellName?).getLast? = some cell := by
    rw [List.filterMap_append, List.filterMap_cons_some hline, List.filterMap_eq_nil_iff.2 hrest,
      List.getLast?_concat]
  simp only [noteAt, hcell, hport, hlast, lastBlock_append_cons hline hrest]

/-! ## The step -/

/-- A reader that has taken lines and noted what there was to note. -/
structure HasRead (r : Reader) (lines : List Text) : Prop where
  blocks : BlocksRead lines r.before.entries r.block
  warnings : r.warnings = warningsOf lines

namespace HasRead

variable {r r' : Reader}

theorem concat (h : HasRead r lines)
    (hblocks : BlocksRead (lines ++ [x]) r'.before.entries r'.block)
    (hwarnings : r'.warnings =
      r.warnings ++ ((noteAt lines x).map (Note.message (lines.length + 1))).toList) :
    HasRead r' (lines ++ [x]) :=
  ⟨hblocks, by rw [hwarnings, warningsOf_concat, h.warnings]⟩

theorem beginCell (h : HasRead r lines) (hcell : cellName? x = some name) :
    HasRead (r.beginCell (lines.length + 1) name) (lines ++ [x]) := by
  -- The new block stands behind all lines so far, and no line of its own is read yet.
  have hblocks : BlocksRead (lines ++ [x]) (cells lines)
      (some { name, counted := decide (name ∉ lines.filterMap cellName?) }) :=
    .behind (b := { name, counted := decide (name ∉ lines.filterMap cellName?) }) hcell (by simp)
      (.start (by simp)) rfl
  rw [← h.blocks.entries_table] at hblocks
  unfold Reader.beginCell
  rw [h.blocks.contains_keys_table, ← decide_not]
  by_cases hname : name ∈ lines.filterMap cellName?
  · rw [if_neg (by simpa using hname)]
    refine h.concat hblocks ?_
    rw [noteAt_of_cell hcell, if_pos hname, Reader.warnings_remark]
    rfl
  · rw [if_pos (by simpa using hname)]
    refine h.concat hblocks ?_
    rw [noteAt_of_cell hcell, if_neg hname]
    exact (List.append_nil _).symm

theorem addPort (h : HasRead r lines) (hcell : cellName? x = none)
    (hport : portName? x = some name) :
    HasRead (r.addPort (lines.length + 1) name) (lines ++ [x]) := by
  have hblocks := h.blocks
  unfold Reader.addPort
  generalize hentries : r.before.entries = entries at hblocks
  generalize hblock : r.block = block at hblocks
  cases hblocks with
  | start hlines =>
    refine h.concat ?_ ?_
    · simpa [Reader.remark, hentries, hblock] using BlocksRead.concat_start hlines hcell
    · rw [noteAt_of_port_start hcell hport hlines]
      exact Reader.warnings_remark _ _ _
  | @behind front rest line b hline hrest hports hcounted =>
    have hnext := hports.concat_port hport
    have hrepeated : (b.cell.port? name).isSome = true ↔ name ∈ rest.filterMap portName? :=
      port?_isSome_iff hports.append_toList_eq name
    by_cases hname : name ∈ rest.filterMap portName?
    · rw [if_pos hname] at hnext
      simp only [if_pos (hrepeated.2 hname)]
      refine h.concat ?_ ?_
      · simp only [Reader.remark, hentries]
        exact .concat_of_ports hline hrest hcounted hcell rfl rfl hnext
      · rw [noteAt_of_port_behind hcell hport hline hrest, if_pos hname, Reader.warnings_remark]
        rfl
    · rw [if_neg hname] at hnext
      simp only [if_neg (mt hrepeated.1 hname)]
      refine h.concat ?_ ?_
      · simp only [hentries]
        exact .concat_of_ports hline hrest hcounted hcell rfl rfl hnext
      · rw [noteAt_of_port_behind hcell hport hline hrest, if_neg hname]
        exact (List.append_nil _).symm

/-- **One more line keeps the invariant.** -/
theorem feed (h : HasRead r lines) (x : Text) :
    HasRead (r.feed (lines.length + 1) x) (lines ++ [x]) := by
  have hcell := cell?_ofText x
  have hport := port?_ofText x
  have hdirection := direction?_ofText x
  unfold Reader.feed
  cases he : Entry.ofText x with
  | blank =>
    rw [he] at hcell hport hdirection
    refine h.concat (h.blocks.concat_other hcell.symm hport.symm hdirection.symm) ?_
    rw [noteAt_of_other hcell.symm hport.symm]
    exact (List.append_nil _).symm
  | cell name =>
    rw [he] at hcell
    exact h.beginCell hcell.symm
  | port name =>
    rw [he] at hcell hport
    exact h.addPort hcell.symm hport.symm
  | direction d =>
    rw [he] at hcell hport hdirection
    refine h.concat (h.blocks.concat_direction hcell.symm hport.symm hdirection.symm) ?_
    rw [noteAt_of_other hcell.symm hport.symm]
    exact (List.append_nil _).symm
  | stray line =>
    rw [he] at hcell hport hdirection
    refine h.concat (h.blocks.concat_other hcell.symm hport.symm hdirection.symm) ?_
    rw [noteAt_of_other hcell.symm hport.symm]
    exact Reader.warnings_remark _ _ _

end HasRead

/-! ## The whole reading -/

theorem Reader.feedAll_concat (r : Reader) (number : Int) (lines : List Text) (x : Text) :
    r.feedAll number (lines ++ [x]) = (r.feedAll number lines).feed (number + lines.length) x := by
  induction lines generalizing r number with
  | nil => simp [Reader.feedAll]
  | cons l lines ih =>
    rw [List.cons_append, Reader.feedAll, Reader.feedAll, ih, List.length_cons]
    congr 1
    omega

/-- **A reader keeps the invariant along all lines.** -/
theorem hasRead_feedAll (lines : List Text) : HasRead (Reader.feedAll {} 1 lines) lines := by
  induction lines using List.reverseRecOn with
  | nil => exact ⟨.start (by simp), rfl⟩
  | append_singleton front x ih =>
    rw [Reader.feedAll_concat, Int.add_comm]
    exact ih.feed x

/-- **The reader computes the meaning of a text:** its cells are those of the lines, and its
warnings are what there is to notice at the lines. -/
theorem entries_parse_and_warnings_read (t : Text) :
    (parse t).entries = cells (Text.lines t) ∧
      (read t).warnings = warningsOf (Text.lines t) :=
  ⟨(hasRead_feedAll (Text.lines t)).blocks.entries_table, (hasRead_feedAll (Text.lines t)).warnings⟩

/-- A repeated port closes the port before it, and a repeated cell adds nothing. -/
example :
    (parse ("inv:\n    A:\n      direction: in\n    A:\n".toList
        ++ "      direction: out\ninv:\n    B:\n".toList)).entries =
      [("inv".toList, ⟨"inv".toList, [⟨"A".toList, .input⟩]⟩)] := by
  decide

/-! ## Empty lines -/

namespace Reader

variable {r r' : Reader}

/-- The cells that are read depend on the cells read before and the block at hand, not on remarks
and line numbers. -/
theorem take_congr (h : r.before = r'.before ∧ r.block = r'.block) (number number' : Int)
    (e : Entry) : (r.take number e).before = (r'.take number' e).before ∧
      (r.take number e).block = (r'.take number' e).block := by
  obtain ⟨before, block, remarks⟩ := r
  obtain ⟨before', block', remarks'⟩ := r'
  obtain ⟨rfl, rfl⟩ := h
  cases e with
  | blank => exact ⟨rfl, rfl⟩
  | cell name =>
    have htable : table ⟨before, block, remarks⟩ = table ⟨before, block, remarks'⟩ := rfl
    simp only [take, beginCell, htable]
    split <;> exact ⟨rfl, rfl⟩
  | port name =>
    cases block with
    | none => exact ⟨rfl, rfl⟩
    | some b =>
      simp only [take, addPort]
      split <;> exact ⟨rfl, rfl⟩
  | direction d => exact ⟨rfl, rfl⟩
  | stray line => exact ⟨rfl, rfl⟩

theorem feedAll_filter (h : r.before = r'.before ∧ r.block = r'.block) (number number' : Int)
    (lines : List Text) :
    (r.feedAll number lines).before = (r'.feedAll number' (lines.filter (· ≠ []))).before ∧
      (r.feedAll number lines).block = (r'.feedAll number' (lines.filter (· ≠ []))).block := by
  induction lines generalizing r r' number number' with
  | nil => exact h
  | cons l lines ih =>
    by_cases hl : l = []
    · rw [List.filter_cons_of_neg (by simpa using hl), hl]
      exact ih h _ _
    · rw [List.filter_cons_of_pos (by simpa using hl)]
      exact ih (take_congr h _ _ _) _ _

end Reader

/-- **Empty lines count for nothing.** -/
theorem table_feedAll_filter (lines : List Text) :
    (Reader.feedAll {} 1 lines).table = (Reader.feedAll {} 1 (lines.filter (· ≠ []))).table := by
  have hfrom : (Reader.before {} = Reader.before {}) ∧ (Reader.block {} = Reader.block {}) :=
    ⟨rfl, rfl⟩
  obtain ⟨hbefore, hblock⟩ := Reader.feedAll_filter hfrom 1 1 lines
  unfold Reader.table
  rw [hbefore, hblock]

/-- **A descriptor lists the cells that its lines with anything in them list.** -/
theorem parse_congr {t u : Text}
    (h : (Text.lines t).filter (· ≠ []) = (Text.lines u).filter (· ≠ [])) : parse t = parse u := by
  rw [parse, parse, read, read, table_feedAll_filter, h, ← table_feedAll_filter]

end NetlistPrep.Descriptor
