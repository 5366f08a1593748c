import NetlistPrep.Proofs.Descriptor.Line

/-!
# The meaning of a descriptor

What the lines of a descriptor say, told from all of them at once and without a reader.

* A line with a key opens a stretch of lines, which ends in front of the next line with any key.
  `sections` makes something of every key and the stretch behind its first line
  (`sections_append_cons` takes one more stretch in).
* `cells` are the sections by cell lines; the ports of a cell are the sections by port lines of its
  stretch (`ports`), and the last direction line of its stretch gives a port its direction.
* `noteAt` is what there is to notice at a line, given the lines before it.
-/

namespace NetlistPrep.Descriptor

/-! ## Sections -/

section Sections

variable {β : Type} (key? : Text → Option Text) (make : Text → List Text → β)

/-- The lines behind the first line of a key, up to the next line that has one. -/
def stretch (key : Text) (lines : List Text) : List Text :=
  (lines.dropWhile fun l => key? l ≠ some key).tail.takeWhile fun l => key? l = none

/-- What is made of every key and the stretch behind its first line, in the order in which the keys
come. -/
def sections (lines : List Text) : List β :=
  (lines.filterMap key?).eraseDups.map fun key => make key (stretch key? key lines)

variable {key?}

theorem stretch_append_cons {front rest : List Text} {line key : Text}
    (hfront : ∀ l ∈ front, key? l ≠ some key) (hline : key? line = some key) :
    stretch key? key (front ++ line :: rest) = rest.takeWhile fun l => key? l = none := by
  rw [stretch, List.dropWhile_append_of_pos (by simpa using hfront),
    List.dropWhile_cons_of_neg (by simp [hline]), List.tail_cons]

theorem stretch_append_cons_of_mem {front rest : List Text} {line key key' : Text}
    (hkey : key ∈ front.filterMap key?) (hline : key? line = some key') :
    stretch key? key (front ++ line :: rest) = stretch key? key front := by
  obtain ⟨l, hl, hlkey⟩ := List.mem_filterMap.1 hkey
  have hfind : (front.find? fun l => key? l = some key).isSome :=
    List.find?_isSome.2 ⟨l, hl, by simpa using hlkey⟩
  obtain ⟨first, hfirst⟩ := Option.isSome_iff_exists.1 hfind
  obtain ⟨hfirstkey, a, b, rfl, ha⟩ := List.find?_eq_some_iff_append.1 hfirst
  have ha' : ∀ l ∈ a, key? l ≠ some key := by simpa using ha
  rw [List.append_assoc, List.cons_append, stretch_append_cons ha' (by simpa using hfirstkey),
    stretch_append_cons ha' (by simpa using hfirstkey), List.takeWhile_append]
  split
  · rename_i hlen
    rw [List.takeWhile_cons_of_neg (by simp [hline]), List.append_nil,
      (List.takeWhile_sublist _).eq_of_length hlen]
  · rfl

theorem stretch_append_cons_of_not_mem {front rest : List Text} {line key : Text}
    (hkey : key ∉ front.filterMap key?) (hline : key? line = some key)
    (hrest : ∀ l ∈ rest, key? l = none) : stretch key? key (front ++ line :: rest) = rest := by
  rw [stretch_append_cons (fun l hl h => hkey (List.mem_filterMap.2 ⟨l, hl, h⟩)) hline]
  induction rest with
  | nil => rfl
  | cons l rest ih =>
    rw [List.takeWhile_cons_of_pos (by simpa using hrest l List.mem_cons_self),
      ih fun l' hl' => hrest l' (List.mem_cons_of_mem _ hl')]

theorem sections_of_forall {lines : List Text} (h : ∀ l ∈ lines, key? l = none) :
    sections key? make lines = [] := by
  rw [sections, List.filterMap_eq_nil_iff.2 h]
  rfl

/-- **One more stretch makes one more section,** unless its key has one. -/
theorem sections_append_cons {front rest : List Text} {line key : Text}
    (hline : key? line = some key) (hrest : ∀ l ∈ rest, key? l = none) :
    sections key? make (front ++ line :: rest) =
      if key ∈ front.filterMap key? then sections key? make front
      else sections key? make front ++ [make key rest] := by
  have hkeys : (front ++ line :: rest).filterMap key? = front.filterMap key? ++ [key] := by
    rw [List.filterMap_append, List.filterMap_cons_some hline, List.filterMap_eq_nil_iff.2 hrest]
  have hfront : (front.filterMap key?).eraseDups.map
        (fun key => make key (stretch key? key (front ++ line :: rest))) =
      sections key? make front := by
    refine List.map_congr_left fun k hk => ?_
    rw [stretch_append_cons_of_mem (List.mem_eraseDups.1 hk) hline]
  have hlast : ∀ keys : List Text,
      ([key].removeAll keys).eraseDups = if key ∈ keys then [] else [key] := by
    intro keys
    by_cases h : key ∈ keys <;> simp [List.removeAll, List.eraseDups_cons, h]
  rw [sections, hkeys, List.eraseDups_append, List.map_append, hfront, hlast]
  by_cases h : key ∈ front.filterMap key?
  · rw [if_pos h, if_pos h, List.map_nil, List.append_nil]
  · rw [if_neg h, if_neg h, List.map_singleton, stretch_append_cons_of_not_mem h hline hrest]

theorem map_sections {name : β → Text} (h : ∀ key lines, name (make key lines) = key)
    (lines : List Text) :
    (sections key? make lines).map name = (lines.filterMap key?).eraseDups := by
  simp [sections, Function.comp_def, h]

end Sections

/-! ## Cells and ports -/

/-- The direction that a stretch of lines gives: the last of those in it. -/
def lastDirection (lines : List Text) : Direction :=
  (lines.filterMap direction?).getLast?.getD .inout

/-- The ports of a stretch of lines behind a cell line. -/
def ports (block : List Text) : List Port :=
  sections portName? (fun name lines => ⟨name, lastDirection lines⟩) block

/-- The cells of all lines, under their names. -/
def cells (lines : List Text) : List (Text × Cell) :=
  sections cellName? (fun name block => (name, ⟨name, ports block⟩)) lines

section Cons

variable {front rest : List Text} {line name : Text}

theorem ports_of_forall {block : List Text} (h : ∀ l ∈ block, portName? l = none) :
    ports block = [] :=
  sections_of_forall _ h

theorem ports_append_cons (hline : portName? line = some name)
    (hrest : ∀ l ∈ rest, portName? l = none) :
    ports (front ++ line :: rest) =
      if name ∈ front.filterMap portName? then ports front
      else ports front ++ [⟨name, lastDirection rest⟩] :=
  sections_append_cons _ hline hrest

theorem map_name_ports (block : List Text) :
    (ports block).map (·.name) = (block.filterMap portName?).eraseDups :=
  map_sections _ (fun _ _ => rfl) block

theorem cells_of_forall {lines : List Text} (h : ∀ l ∈ lines, cellName? l = none) :
    cells lines = [] :=
  sections_of_forall _ h

theorem cells_append_cons (hline : cellName? line = some name)
    (hrest : ∀ l ∈ rest, cellName? l = none) :
    cells (front ++ line :: rest) =
      if name ∈ front.filterMap cellName? then cells front
      else cells front ++ [(name, ⟨name, ports rest⟩)] :=
  sections_append_cons _ hline hrest

theorem map_fst_cells (lines : List Text) :
    (cells lines).map (·.1) = (lines.filterMap cellName?).eraseDups :=
  map_sections _ (fun _ _ => rfl) lines

end Cons

/-! ## Notes -/

/-- The lines behind the last cell line, or all of them. -/
def lastBlock (lines : List Text) : List Text :=
  (lines.reverse.takeWhile fun l => cellName? l = none).reverse

/-- What there is to notice at a line that stands behind others: a cell whose name came before, a
port without a cell line before it, and a port whose name came before in its block. -/
def noteAt (before : List Text) (line : Text) : Option Note :=
  match cellName? line, portName? line with
  | some name, _ =>
    if name ∈ before.filterMap cellName? then some (.repeatedCell name) else none
  | none, some name =>
    match (before.filterMap cellName?).getLast? with
    | none => some (.portOutside name)
    | some cell =>
      if name ∈ (lastBlock before).filterMap portName? then some (.repeatedPort name cell) else none
  | none, none => none

/-- The warnings that lines give, in their order, with the numbers of the lines from one on. -/
def warningsOf (lines : List Text) : List Text :=
  lines.zipIdx.filterMap fun x => (noteAt (lines.take x.2) x.1).map (Note.message (x.2 + 1))

theorem warningsOf_concat (lines : List Text) (line : Text) :
    warningsOf (lines ++ [line]) =
      warningsOf lines ++ ((noteAt lines line).map (Note.message (lines.length + 1))).toList := by
  have hbefore : lines.zipIdx.filterMap (fun x =>
        (noteAt ((lines ++ [line]).take x.2) x.1).map (Note.message (x.2 + 1))) =
      warningsOf lines := by
    refine List.filterMap_congr fun x hx => ?_
    rw [List.take_append_of_le_length (Nat.le_of_lt (List.snd_lt_of_mem_zipIdx hx))]
  rw [warningsOf, List.zipIdx_append, List.filterMap_append, hbefore]
  cases h : noteAt lines line <;> simp [h]

theorem lastBlock_append_cons {front rest : List Text} {line name : Text}
    (hline : cellName? line = some name) (hrest : ∀ l ∈ rest, cellName? l = none) :
    lastBlock (front ++ line :: rest) = rest := by
  have hrev : ∀ l ∈ rest.reverse, decide (cellName? l = none) = true := fun l hl => by
    simpa using hrest l (List.mem_reverse.1 hl)
  rw [lastBlock, List.reverse_append, List.reverse_cons, List.append_assoc,
    List.takeWhile_append_of_pos hrev, List.singleton_append,
    List.takeWhile_cons_of_neg (by simp [hline]), List.append_nil, List.reverse_reverse]

end NetlistPrep.Descriptor
