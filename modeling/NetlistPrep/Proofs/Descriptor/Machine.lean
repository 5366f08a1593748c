import NetlistPrep.Descriptor.Machine
import NetlistPrep.Proofs.Descriptor.Names

/-!
# The variables of a machine agree

`Follows` is a machine and a reader that have taken the same lines; its cases are the two shapes
that the variables of a machine have together.

* `Follows.take` is the step: one more entry keeps a machine in one of these shapes.
* `Follows.sound` reads off the shapes how the variables agree (`Sound`), and `Follows.shows` that
  the machine shows what the reader shows.
* `kept_take` is what a step leaves as it is (`Kept`).
* `sound_run` puts them together for every run.
-/

namespace NetlistPrep.Descriptor

/-! ## Cells with good names -/

/-- A cell with a trimmed name whose ports have different plain names. -/
structure IsNamed (c : Cell) : Prop where
  name : IsTrimmed c.name
  ports : ∀ p ∈ c.ports, IsPlain p.name
  nodup : (c.ports.map (·.name)).Nodup

theorem IsNamed.of_name {name : Text} (h : IsTrimmed name) : IsNamed { name } :=
  ⟨h, by simp, by simp⟩

theorem IsNamed.concat {c : Cell} (h : IsNamed c) {p : Port} (hp : IsPlain p.name)
    (hfresh : c.port? p.name = none) : IsNamed { c with ports := c.ports ++ [p] } := by
  refine ⟨h.name, fun q hq => ?_, ?_⟩
  · rcases List.mem_append.1 hq with hq | hq
    · exact h.ports q hq
    · rw [List.mem_singleton.1 hq]
      exact hp
  · have hnot : ∀ q ∈ c.ports, q.name ≠ p.name := by
      simpa [Cell.port?, List.find?_eq_none] using hfresh
    rw [List.map_append, List.map_singleton, List.nodup_append]
    refine ⟨h.nodup, by simp, ?_⟩
    intro a ha b hb
    obtain ⟨q, hq, rfl⟩ := List.mem_map.1 ha
    rw [List.mem_singleton.1 hb]
    exact hnot q hq

theorem IsNamed.setDirection {name : Text} {closed : List Port} {p : Port}
    (h : IsNamed ⟨name, closed ++ [p]⟩) (d : Direction) :
    IsNamed ⟨name, closed ++ [{ p with direction := d }]⟩ := by
  refine ⟨h.name, fun q hq => ?_, by simpa using h.nodup⟩
  rcases List.mem_append.1 hq with hq | hq
  · exact h.ports q (List.mem_append_left _ hq)
  · rw [List.mem_singleton.1 hq]
    exact h.ports p (List.mem_append_right _ (List.mem_singleton_self p))

/-! ## The last of a row -/

theorem set_length_concat {α : Type} (l : List α) (a b : α) :
    (l ++ [a]).set l.length b = l ++ [b] := by
  rw [List.set_append_right _ _ (Nat.le_refl _), Nat.sub_self]
  rfl

theorem modify_length_concat {α : Type} (l : List α) (a : α) (f : α → α) :
    (l ++ [a]).modify l.length f = l ++ [f a] := by
  induction l with
  | nil => rfl
  | cons x l ih => simpa using ih

/-! ## The shapes of a machine -/

/-- Where a machine stands in a block. -/
def Block.standing (b : Block) : Standing := if b.port.isSome then .inPort else .inCell

theorem Block.standing_ne_topLevel (b : Block) : b.standing ≠ .topLevel := by
  unfold Block.standing
  split <;> simp

/-- The place of the port at hand, in the cell of a number. -/
def Block.place (b : Block) (i : Nat) : Option (Nat × Nat) :=
  b.port.map fun _ => (i, b.closed.length)

namespace Machine

variable {front cells : List Cell} {table : List (Text × Nat)}

/-- Every name of a table is that of the cell whose number it has. -/
def Names (cells : List Cell) (table : List (Text × Nat)) : Prop :=
  ∀ e ∈ table, ∃ c, cells[e.2]? = some c ∧ c.name = e.1

theorem Names.append (h : Names front table) (cells : List Cell) :
    Names (front ++ cells) table := by
  intro e he
  obtain ⟨c, hc, hname⟩ := h e he
  exact ⟨c, List.getElem?_append_left (List.getElem?_eq_some_iff.1 hc).1 ▸ hc, hname⟩

theorem Names.concat (h : Names front table) (c : Cell) :
    Names (front ++ [c]) (table ++ [(c.name, front.length)]) := by
  intro e he
  rcases List.mem_append.1 he with he | he
  · exact h.append [c] e he
  · rw [List.mem_singleton.1 he]
    exact ⟨c, List.getElem?_concat_length, rfl⟩

theorem entriesOf_append (h : Names front table) (cells : List Cell) :
    entriesOf (front ++ cells) table = entriesOf front table := by
  refine List.filterMap_congr fun e he => ?_
  obtain ⟨c, hc, -⟩ := h e he
  rw [List.getElem?_append_left (List.getElem?_eq_some_iff.1 hc).1]

theorem entriesOf_concat (h : Names front table) (c : Cell) :
    entriesOf (front ++ [c]) (table ++ [(c.name, front.length)]) =
      entriesOf front table ++ [(c.name, c)] := by
  have hlast : entriesOf (front ++ [c]) [(c.name, front.length)] = [(c.name, c)] := by
    simp [entriesOf]
  rw [entriesOf, List.filterMap_append, ← entriesOf, ← entriesOf, hlast, entriesOf_append h]

theorem map_fst_entriesOf (h : Names cells table) :
    (entriesOf cells table).map (·.1) = table.map (·.1) := by
  induction table with
  | nil => rfl
  | cons e table ih =>
    obtain ⟨c, hc, -⟩ := h e List.mem_cons_self
    have hrest := ih fun e' he' => h e' (List.mem_cons_of_mem _ he')
    rw [entriesOf, List.filterMap_cons_some (by rw [hc]; rfl), List.map_cons, List.map_cons]
    exact congrArg _ hrest

end Machine

open Machine

/-- A machine and a reader that have taken the same lines. Either no cell was begun, or the last
cell begun is the block at hand; then all variables are given by that block and by what was before.
-/
inductive Follows : Machine → Reader → Prop
  | start (remarks : List Remark) : Follows { remarks } { remarks }
  | inCell {front : List Cell} {table : List (Text × Nat)} {before : CellTable} {b : Block}
      (remarks : List Remark) (hentries : entriesOf front table = before.entries)
      (hnames : Names front table) (hfront : ∀ c ∈ front, IsNamed c) (hcell : IsNamed b.cell)
      (hcounted : b.counted = true → b.name ∉ before.keys) :
      Follows
        { cells := front ++ [b.cell]
          table := if b.counted then table ++ [(b.name, front.length)] else table
          standing := b.standing, cell := some front.length, port := b.place front.length, remarks }
        { before, block := some b, remarks }

namespace Follows

variable {m : Machine} {r : Reader}

theorem names (h : Follows m r) : Names m.cells m.table := by
  cases h with
  | start => exact fun e he => absurd he (by simp)
  | @inCell front table before b remarks hentries hnames =>
    simp only
    split
    · exact hnames.concat b.cell
    · exact hnames.append [b.cell]

theorem entries_eq (h : Follows m r) : m.entries = r.table.entries := by
  cases h with
  | start => rfl
  | @inCell front table before b remarks hentries hnames hfront hcell hcounted =>
    unfold Machine.entries Reader.table
    simp only
    split
    · rename_i hb
      rw [entries_insert_of_not_mem (hcounted hb), ← hentries]
      exact entriesOf_concat hnames b.cell
    · rw [entriesOf_append hnames, hentries]

theorem map_fst_table (h : Follows m r) : m.table.map (·.1) = r.table.keys := by
  rw [← map_fst_entriesOf h.names, ← Machine.entries, h.entries_eq, CellTable.keys]

theorem named (h : Follows m r) : ∀ c ∈ m.cells, IsNamed c := by
  cases h with
  | start => exact fun c hc => absurd hc (by simp)
  | inCell remarks hentries hnames hfront hcell =>
    intro c hc
    rcases List.mem_append.1 hc with hc | hc
    · exact hfront c hc
    · rw [List.mem_singleton.1 hc]
      exact hcell

/-! ### The step -/

theorem remark (h : Follows m r) (number : Int) (note : Note) :
    Follows (m.remark number note) (r.remark number note) := by
  cases h with
  | start => exact .start _
  | inCell remarks hentries hnames hfront hcell hcounted =>
    exact .inCell _ hentries hnames hfront hcell hcounted

theorem remarks_eq (h : Follows m r) : m.remarks = r.remarks := by
  cases h <;> rfl

theorem beginCell (h : Follows m r) (number : Int) {name : Text} (hname : IsTrimmed name) :
    Follows (m.beginCell number name) (r.beginCell number name) := by
  have hmem : name ∈ m.table.map (·.1) ↔ name ∈ r.table.keys := by rw [h.map_fst_table]
  -- The cells so far are in front of the new one, and what was read so far is before its block.
  have hbegin : ∀ (counted : Bool) (remarks : List Remark), (counted = true → name ∉ r.table.keys) →
      Follows
        { cells := m.cells ++ [{ name }]
          table := if counted then m.table ++ [(name, m.cells.length)] else m.table
          standing := .inCell, cell := some m.cells.length, remarks }
        { before := r.table, block := some { name, counted }, remarks } :=
    fun counted remarks hcounted => .inCell (b := { name, counted }) remarks h.entries_eq h.names
      h.named (.of_name hname) hcounted
  unfold Machine.beginCell Reader.beginCell
  by_cases hkey : name ∈ r.table.keys
  · have hcontains : r.table.keys.contains name = true := by simpa using hkey
    simp only [hmem.2 hkey, if_true, hcontains, Machine.remark, h.remarks_eq]
    exact hbegin false _ (by simp)
  · have hcontains : r.table.keys.contains name = false := by simpa using hkey
    simp only [mt hmem.1 hkey, if_false, hcontains, h.remarks_eq]
    exact hbegin true _ fun _ => hkey

theorem addPort (h : Follows m r) (number : Int) {name : Text} (hname : IsPlain name) :
    Follows (m.addPort number name) (r.addPort number name) := by
  cases h with
  | start remarks => exact .start _
  | @inCell front table before b remarks hentries hnames hfront hcell hcounted =>
    have hcurrent : (front ++ [b.cell])[front.length]? = some b.cell := List.getElem?_concat_length
    unfold Machine.addPort Reader.addPort
    simp only [b.standing_ne_topLevel, if_false, hcurrent]
    cases hport : b.cell.port? name with
    | some p =>
      let b' : Block := { b with closed := b.cell.ports, port := none }
      have hclosed : b'.cell = b.cell := by simp [b', Block.cell]
      have hkept := Follows.inCell (b := b') (remarks ++ [⟨number, .repeatedPort name b.name⟩])
        hentries hnames hfront (hclosed.symm ▸ hcell) hcounted
      rw [hclosed] at hkept
      exact hkept
    | none =>
      have hconcat := hcell.concat (p := { name }) hname hport
      simp only [set_length_concat]
      exact .inCell (b := { b with closed := b.cell.ports, port := some { name } }) remarks hentries
        hnames hfront hconcat hcounted

theorem setDirection (h : Follows m r) (d : Direction) :
    Follows (m.setDirection d) (r.setDirection d) := by
  cases h with
  | start remarks => exact .start _
  | @inCell front table before b remarks hentries hnames hfront hcell hcounted =>
    obtain ⟨name, closed, port, counted⟩ := b
    cases port with
    | none => exact .inCell remarks hentries hnames hfront hcell hcounted
    | some p =>
      have hmodify : (front ++ [(⟨name, closed ++ [p]⟩ : Cell)]).modify front.length (fun c =>
          { c with ports := c.ports.modify closed.length fun p => { p with direction := d } }) =
          front ++ [⟨name, closed ++ [{ p with direction := d }]⟩] := by
        rw [modify_length_concat, modify_length_concat]
      have hdirected : IsNamed ⟨name, closed ++ [{ p with direction := d }]⟩ := hcell.setDirection d
      have hkept := Follows.inCell (b := ⟨name, closed, some { p with direction := d }, counted⟩)
        remarks hentries hnames hfront hdirected hcounted
      unfold Machine.setDirection
      simp only [Block.standing, Block.place, Block.cell, Option.isSome_some, if_true,
        Option.map_some, Option.toList_some, hmodify]
      exact hkept

/-- **One more entry keeps a machine in one of the shapes.** -/
theorem take (h : Follows m r) (number : Int) {e : Entry}
    (hcell : ∀ name, e.cell? = some name → IsTrimmed name)
    (hport : ∀ name, e.port? = some name → IsPlain name) :
    Follows (m.take number e) (r.take number e) := by
  cases e with
  | blank => exact h
  | cell name => exact h.beginCell number (hcell name rfl)
  | port name => exact h.addPort number (hport name rfl)
  | direction d => exact h.setDirection d
  | stray line => exact h.remark number _

theorem feed (h : Follows m r) (number : Int) (line : Text) :
    Follows (m.feed number line) (r.feed number line) := by
  refine h.take number (fun name hname => ?_) (fun name hname => ?_)
  · exact isTrimmed_of_cellName? (cell?_ofText line ▸ hname)
  · exact plain_of_portName? (port?_ofText line ▸ hname)

end Follows

/-! ## What the shapes say -/

/-- How the variables of a machine agree. -/
structure Machine.Sound (m : Machine) : Prop where
  names : Names m.cells m.table
  keys_nodup : (m.table.map (·.1)).Nodup
  named : ∀ c ∈ m.cells, IsNamed c
  topLevel : m.standing = .topLevel ↔ m.cell = none
  inPort : m.standing = .inPort ↔ m.port.isSome = true
  cell : ∀ i, m.cell = some i → i < m.cells.length
  port : ∀ i k, m.port = some (i, k) →
    m.cell = some i ∧ ∃ c, m.cells[i]? = some c ∧ k + 1 = c.ports.length

/-- Where a reader stands. -/
def Reader.standing (r : Reader) : Standing := (r.block.map Block.standing).getD .topLevel

/-- A machine and a reader that look the same from outside. -/
structure Shows (m : Machine) (r : Reader) : Prop where
  entries : m.entries = r.table.entries
  cell : m.cell? = r.block.map Block.cell
  port : m.port? = r.block.bind (·.port)
  standing : m.standing = r.standing
  remarks : m.remarks = r.remarks

namespace Follows

variable {m : Machine} {r : Reader}

theorem sound (h : Follows m r) : m.Sound := by
  refine ⟨h.names, h.map_fst_table ▸ r.table.keys_nodup, h.named, ?_, ?_, ?_, ?_⟩
  · cases h with
    | start => simp
    | @inCell front table before b => simp [b.standing_ne_topLevel]
  · cases h with
    | start => simp
    | @inCell front table before b =>
      unfold Block.standing Block.place
      cases b.port <;> simp
  · cases h with
    | start => simp
    | inCell =>
      intro i hi
      obtain rfl := Option.some.inj hi
      simp
  · cases h with
    | start => simp
    | @inCell front table before b =>
      intro i k hplace
      obtain ⟨p, hp, hik⟩ := Option.map_eq_some_iff.1 hplace
      obtain ⟨rfl, rfl⟩ := Prod.mk.inj hik
      exact ⟨rfl, b.cell, List.getElem?_concat_length, by simp [Block.cell, hp]⟩

theorem shows (h : Follows m r) : Shows m r := by
  refine ⟨h.entries_eq, ?_, ?_, ?_, h.remarks_eq⟩
  · cases h with
    | start => rfl
    | inCell => exact List.getElem?_concat_length
  · cases h with
    | start => rfl
    | @inCell front table before b =>
      obtain ⟨name, closed, port, counted⟩ := b
      cases port <;> simp [Machine.port?, Block.place, Block.cell]
  · cases h <;> rfl

theorem run (feeds : List (Int × Text)) :
    Follows (Machine.run feeds) (feeds.foldl (fun r x => r.feed x.1 x.2) {}) := by
  induction feeds using List.reverseRecOn with
  | nil => exact .start []
  | append_singleton feeds x ih =>
    rw [Machine.run, List.foldl_concat, List.foldl_concat]
    exact ih.feed x.1 x.2

end Follows

/-! ## What a step leaves as it is -/

/-- What stays of a machine when it takes one more line: the table but for a new name at its end,
and all cells. Only the cell at hand may change. It keeps its name and its ports in their order, and
of these ports only the one at hand may change, in its direction. -/
structure Kept (m m' : Machine) : Prop where
  table : m.table <+: m'.table
  cells : ∀ i c, m.cells[i]? = some c → ∃ c', m'.cells[i]? = some c' ∧ c'.name = c.name ∧
    c.ports.map (·.name) <+: c'.ports.map (·.name) ∧ (m.cell ≠ some i → c' = c) ∧
    ∀ k p, c.ports[k]? = some p → m.port ≠ some (i, k) → c'.ports[k]? = some p

namespace Kept

variable {m m' : Machine}

theorem of_cells_eq (htable : m.table <+: m'.table) (hcells : m'.cells = m.cells) : Kept m m' := by
  refine ⟨htable, fun i c hc => ⟨c, hcells ▸ hc, rfl, List.prefix_rfl, fun _ => rfl, ?_⟩⟩
  exact fun k p hp _ => hp

/-- Nothing changes but the cell at hand. -/
theorem of_cell {i : Nat} (htable : m.table <+: m'.table) (hcell : m.cell = some i)
    (hother : ∀ j, i ≠ j → m'.cells[j]? = m.cells[j]?)
    (hself : ∀ c, m.cells[i]? = some c → ∃ c', m'.cells[i]? = some c' ∧ c'.name = c.name ∧
      c.ports.map (·.name) <+: c'.ports.map (·.name) ∧
      ∀ k p, c.ports[k]? = some p → m.port ≠ some (i, k) → c'.ports[k]? = some p) :
    Kept m m' := by
  refine ⟨htable, fun j c hc => ?_⟩
  by_cases hij : i = j
  · subst hij
    obtain ⟨c', hc', hname, hports, hkept⟩ := hself c hc
    exact ⟨c', hc', hname, hports, fun hne => absurd hcell hne, hkept⟩
  · exact ⟨c, (hother j hij).trans hc, rfl, List.prefix_rfl, fun _ => rfl, fun k p hp _ => hp⟩

theorem beginCell (m : Machine) (number : Int) (name : Text) :
    Kept m (m.beginCell number name) := by
  unfold Machine.beginCell
  refine ⟨?_, fun i c hc => ⟨c, ?_, rfl, List.prefix_rfl, fun _ => rfl, fun k p hp _ => hp⟩⟩
  · simp only
    split
    · exact List.prefix_rfl
    · exact List.prefix_append _ _
  · exact List.getElem?_append_left (List.getElem?_eq_some_iff.1 hc).1 ▸ hc

theorem addPort (m : Machine) (number : Int) (name : Text) : Kept m (m.addPort number name) := by
  unfold Machine.addPort
  split
  · exact of_cells_eq List.prefix_rfl rfl
  split
  · exact of_cells_eq List.prefix_rfl rfl
  rename_i i hcell
  split
  · exact of_cells_eq List.prefix_rfl rfl
  rename_i current hcurrent
  split
  · exact of_cells_eq List.prefix_rfl rfl
  refine of_cell List.prefix_rfl hcell (fun j hij => List.getElem?_set_ne hij) fun c hc => ?_
  obtain rfl : current = c := Option.some.inj (hcurrent.symm.trans hc)
  refine ⟨{ current with ports := current.ports ++ [{ name }] }, ?_, rfl, ?_, fun k p hp _ => ?_⟩
  · exact List.getElem?_set_self (List.getElem?_eq_some_iff.1 hc).1
  · rw [List.map_append]
    exact List.prefix_append _ _
  · rwa [List.getElem?_append_left (List.getElem?_eq_some_iff.1 hp).1]

theorem map_name_modify (ports : List Port) (k : Nat) (d : Direction) :
    (ports.modify k fun p => { p with direction := d }).map (·.name) = ports.map (·.name) := by
  induction ports generalizing k with
  | nil => simp
  | cons p ports ih =>
    cases k with
    | zero => rfl
    | succ k => simpa using ih k

theorem setDirection (h : m.Sound) (d : Direction) : Kept m (m.setDirection d) := by
  unfold Machine.setDirection
  split
  · split
    · exact of_cells_eq List.prefix_rfl rfl
    · rename_i i k hport
      refine of_cell List.prefix_rfl (h.port i k hport).1
        (fun j hij => List.getElem?_modify_ne _ _ hij) fun c hc => ?_
      refine ⟨{ c with ports := c.ports.modify k fun p => { p with direction := d } }, ?_, rfl, ?_,
        fun k' p hp hne => ?_⟩
      · rw [List.getElem?_modify_eq, hc]
        rfl
      · have hnames := map_name_modify c.ports k d
        exact hnames ▸ List.prefix_rfl
      · have hkk' : k ≠ k' := fun heq => hne (heq ▸ hport)
        rwa [List.getElem?_modify_ne _ _ hkk']
  · exact of_cells_eq List.prefix_rfl rfl

end Kept

theorem kept_take {m : Machine} (h : m.Sound) (number : Int) (e : Entry) :
    Kept m (m.take number e) := by
  cases e with
  | blank => exact .of_cells_eq List.prefix_rfl rfl
  | cell name => exact .beginCell m number name
  | port name => exact .addPort m number name
  | direction d => exact .setDirection h d
  | stray line => exact .of_cells_eq List.prefix_rfl rfl

/-- **The variables of a machine agree after every run,** one more line leaves all but the cell and
the port at hand as it is, and the machine shows what the reader shows. -/
theorem sound_run (feeds : List (Int × Text)) :
    (run feeds).Sound ∧ (∀ number line, Kept (run feeds) ((run feeds).feed number line)) ∧
      Shows (run feeds) (feeds.foldl (fun r x => r.feed x.1 x.2) {}) := by
  have h := Follows.run feeds
  exact ⟨h.sound, fun number line => kept_take h.sound number _, h.shows⟩

end NetlistPrep.Descriptor
