import NetlistPrep.Command

/-!
# Stores

A store holds the lines of a netlist as plain data that operations change in place. Its type does
not make the items lines: `Store.checked` is what an operation asks of an item before it writes it.
Work that ends in a fault leaves the store as far as it got.

* `prepend`, `prependBlock`, `replace`, `insertAfter` change a store in one place.
* `ensureSections`, `prependBanner`, `rewriteEach`, `mergePinInfo` are made of those. What they call
  on a line is any function, which may fail itself.
* `Operation` has all of them as data. `Operation.ofCommand` is what a command asks for, and does to
  the items of a netlist what the command does to the netlist.
-/

namespace NetlistPrep

/-- Items that operations change in place. -/
abbrev Store := List Json

/-- Work on a store, which leaves a store also where it ends in a fault. -/
abbrev Work (α : Type) := ExceptT Fault (StateM Store) α

/-- The answer of work, and the store that it leaves of another. -/
def Work.runOn {α : Type} (w : Work α) (s : Store) : Except Fault α × Store :=
  StateT.run (ExceptT.run w) s

namespace Work

variable {α β : Type}

@[simp]
theorem runOn_pure (a : α) (s : Store) : (pure a : Work α).runOn s = (.ok a, s) := rfl

@[simp]
theorem runOn_lift (x : Except Fault α) (s : Store) : (liftM x : Work α).runOn s = (x, s) := rfl

@[simp]
theorem runOn_get (s : Store) : (get : Work Store).runOn s = (.ok s, s) := rfl

theorem runOn_bind (w : Work α) (f : α → Work β) (s : Store) :
    (w >>= f).runOn s = match w.runOn s with
      | (.ok a, s') => (f a).runOn s'
      | (.error fault, s') => (.error fault, s') := by
  unfold runOn ExceptT.run StateT.run
  simp only [bind, ExceptT.bind, ExceptT.mk, StateT.bind]
  cases w s with
  | mk answer s' => cases answer <;> rfl

theorem runOn_bind_eq_ok_iff {w : Work α} {f : α → Work β} {s s' : Store} {b : β} :
    (w >>= f).runOn s = (.ok b, s') ↔
      ∃ a s₁, w.runOn s = (.ok a, s₁) ∧ (f a).runOn s₁ = (.ok b, s') := by
  rw [runOn_bind]
  generalize w.runOn s = r
  obtain ⟨answer, s₁⟩ := r
  cases answer with
  | error fault => simp
  | ok a =>
    constructor
    · exact fun h => ⟨a, s₁, rfl, h⟩
    · rintro ⟨_, _, ⟨⟩, h⟩
      exact h

theorem runOn_discard (w : Work α) (s : Store) :
    (discard w).runOn s = ((w.runOn s).1.map fun _ => (), (w.runOn s).2) := by
  have h : discard w = w >>= fun _ => pure () := rfl
  rw [h, runOn_bind]
  generalize w.runOn s = r
  obtain ⟨answer, s'⟩ := r
  cases answer <;> rfl

end Work

/-- The texts of a netlist as plain data. -/
def Netlist.items (n : Netlist) : Store := n.texts.map .str

namespace Store

open PinInfo

/-- Lets an item pass that is a text without a line feed. -/
def checked : Json → Except Fault Json
  | .str t => if '\n' ∈ t then .error (.lineFeed t) else .ok (.str t)
  | v => .error (.lineKind v.kind)

/-- The store of some items, all of them checked. -/
def ofItems (items : List Json) : Except Fault Store := items.mapM checked

/-! ## Changes in one place -/

def prepend (line : Json) : Work Unit := do
  let line ← checked line
  modify (line :: ·)

/-- Checks the whole block before any of it goes in front. -/
def prependBlock (block : List Json) : Work Unit := do
  let block ← ofItems block
  modify (block ++ ·)

/-- The position that an index means among some number of items; a negative index counts from the
end. -/
def place (size : Nat) (index : Int) : Int := if index < 0 then index + size else index

/-- Puts a line in the place of another. -/
def replace (index : Int) (line : Json) : Work Unit := do
  let line ← checked line
  let size := (← get).length
  if 0 ≤ place size index ∧ place size index < size then
    modify (·.set (place size index).toNat line)
  else throw .noSuchLine

/-- Items with a line between the first so many of them and the others. -/
def insertAt (place : Nat) (line : Json) (s : Store) : Store := s.take place ++ line :: s.drop place

/-- Puts a line in behind another. -/
def insertAfter (index : Int) (line : Json) : Work Unit := do
  let size := (← get).length
  if -(size : Int) ≤ index ∧ index < size then
    let line ← checked line
    modify (insertAt (place size index + 1).toNat line)
  else throw (.outOfRange index)

def edit : Edit → Work Unit
  | .prepend line => prepend line
  | .prependBlock block => prependBlock block
  | .replace index line => replace index line
  | .insertAfter index line => insertAfter index line

theorem runOn_prepend (line : Json) (s : Store) :
    (prepend line).runOn s = match checked line with
      | .ok line => (.ok (), line :: s)
      | .error fault => (.error fault, s) := by
  rw [prepend, Work.runOn_bind, Work.runOn_lift]
  cases checked line <;> rfl

theorem runOn_prependBlock (block : List Json) (s : Store) :
    (prependBlock block).runOn s = match ofItems block with
      | .ok block => (.ok (), block ++ s)
      | .error fault => (.error fault, s) := by
  rw [prependBlock, Work.runOn_bind, Work.runOn_lift]
  cases ofItems block <;> rfl

theorem runOn_replace (index : Int) (line : Json) (s : Store) :
    (replace index line).runOn s = match checked line with
      | .ok line =>
        if 0 ≤ place s.length index ∧ place s.length index < s.length then
          (.ok (), s.set (place s.length index).toNat line)
        else (.error .noSuchLine, s)
      | .error fault => (.error fault, s) := by
  rw [replace, Work.runOn_bind, Work.runOn_lift]
  cases checked line with
  | error fault => rfl
  | ok line =>
    simp only [Work.runOn_bind, Work.runOn_get]
    split <;> rfl

theorem runOn_insertAfter (index : Int) (line : Json) (s : Store) :
    (insertAfter index line).runOn s =
      if -(s.length : Int) ≤ index ∧ index < s.length then
        match checked line with
        | .ok line => (.ok (), insertAt (place s.length index + 1).toNat line s)
        | .error fault => (.error fault, s)
      else (.error (.outOfRange index), s) := by
  simp only [insertAfter, Work.runOn_bind, Work.runOn_get]
  split
  · rw [Work.runOn_bind, Work.runOn_lift]
    cases checked line <;> rfl
  · rfl

theorem length_runOn_replace {index : Int} {line : Json} {s s' : Store}
    (h : (replace index line).runOn s = (.ok (), s')) : s'.length = s.length := by
  rw [runOn_replace] at h
  split at h
  · split at h
    · rw [← (Prod.mk.inj h).2, List.length_set]
    · simp at h
  · simp at h

theorem length_runOn_insertAfter {index : Int} {line : Json} {s s' : Store}
    (h : (insertAfter index line).runOn s = (.ok (), s')) : s'.length = s.length + 1 := by
  rw [runOn_insertAfter] at h
  split at h
  · split at h
    · rw [← (Prod.mk.inj h).2, insertAt, List.length_append, List.length_cons, List.length_take,
        List.length_drop]
      omega
    · simp at h
  · simp at h

/-! ## Operations that are made of them -/

/-- A function of texts as one of plain data. -/
def onText {α : Type} (f : Text → α) : Json → Except Fault α
  | .str t => .ok (f t)
  | v => .error (.lineKind v.kind)

/-- A test by which a section is known, and what to put in where no item passes it. -/
structure Requirement where
  met : Json → Except Fault Bool
  defaultLine : Json

/-- Tells whether some item meets a requirement; the first that does ends the search. -/
def Requirement.isMetBy (r : Requirement) (s : Store) : Except Fault Bool := s.anyM r.met

def Requirement.ofSection (s : Section) : Requirement :=
  ⟨onText (s.marker.isPrefixOf ·), .str s.defaultLine⟩

/-- Puts the default line of every requirement in front that no item meets, one by one, and tells
which. -/
def ensureSections : List Requirement → Work (List Json)
  | [] => return []
  | r :: rest => do
    let isMet ← r.isMetBy (← get)
    if isMet then ensureSections rest
    else
      prepend r.defaultLine
      return r.defaultLine :: (← ensureSections rest)

def sameText : Json → Json → Bool
  | .str a, .str b => a == b
  | _, _ => false

/-- Puts a banner in front unless its marker is there; tells whether it did. -/
def prependBanner (banner : List Json) (marker : Json) : Work Bool := do
  if (← get).any (sameText marker) then return false
  else
    prependBlock banner
    return true

/-- Goes over lines that stood from a position on, replaces those for which there is another one,
and goes on counting. -/
def rewriteFrom (f : Json → Except Fault (Option Json)) (i changed : Nat) : List Json → Work Nat
  | [] => return changed
  | line :: rest => do
    match ← f line with
    | none => rewriteFrom f (i + 1) changed rest
    | some fixed =>
      replace i fixed
      rewriteFrom f (i + 1) (changed + 1) rest

/-- Goes over the items that a store has at the start. -/
def rewriteEach (f : Json → Except Fault (Option Json)) : Work Nat := do
  rewriteFrom f 0 0 (← get)

/-- The other text where it is not the same. -/
def rewriting (f : Text → Text) (t : Text) : Option Json :=
  if f t = t then none else some (.str (f t))

def isPinInfo : Json → Bool
  | .str t => marker.isPrefixOf t
  | _ => false

/-- Goes on with a merge at a position; `look` is what is made of a line. -/
def mergeFrom (look : Json → Except Fault Match) (i : Nat) (stats : Stats) (s : Store) :
    Except Fault Stats × Store :=
  match _ : s[i]? with
  | none => (.ok stats, s)
  | some line =>
    match look line with
    | .error fault => (.error fault, s)
    | .ok .nothing => mergeFrom look (i + 1) stats s
    | .ok (.unknown name) =>
      mergeFrom look (i + 1) { stats with unmatched := stats.unmatched ++ [name] } s
    | .ok (.known info) =>
      if s[i + 1]?.any isPinInfo then
        match _ : (replace (i + 1 : Nat) (.str info)).runOn s with
        | (.error fault, s') => (.error fault, s')
        | (.ok (), s') => mergeFrom look (i + 2) { stats with replaced := stats.replaced + 1 } s'
      else
        match _ : (insertAfter i (.str info)).runOn s with
        | (.error fault, s') => (.error fault, s')
        | (.ok (), s') => mergeFrom look (i + 2) { stats with inserted := stats.inserted + 1 } s'
termination_by s.length - i
decreasing_by
  all_goals have hi : i < s.length := (List.getElem?_eq_some_iff.1 ‹s[i]? = some _›).1
  · omega
  · omega
  · rw [length_runOn_replace ‹_›]
    omega
  · rw [length_runOn_insertAfter ‹_›]
    omega

def mergePinInfo (look : Json → Except Fault Match) : Work Stats :=
  ExceptT.mk fun s => mergeFrom look 0 {} s

end Store

/-! ## Operations as data -/

open Store

/-- An operation on a store with what it is called with. -/
inductive Operation
  | edit (e : Edit)
  | ensureSections (requirements : List Store.Requirement)
  | prependBanner (banner : List Json) (marker : Json)
  | rewriteEach (f : Json → Except Fault (Option Json))
  | mergePinInfo (look : Json → Except Fault PinInfo.Match)

namespace Operation

/-- The work of an operation, whatever it answers. -/
def work : Operation → Work Unit
  | edit e => Store.edit e
  | ensureSections requirements => discard (Store.ensureSections requirements)
  | prependBanner banner marker => discard (Store.prependBanner banner marker)
  | rewriteEach f => discard (Store.rewriteEach f)
  | mergePinInfo look => discard (Store.mergePinInfo look)

/-- The operation that a command asks for. -/
def ofCommand : Command → Operation
  | .edit e => edit e
  | .pass (.sectionDefaults sections) =>
    ensureSections (sections.map Requirement.ofSection)
  | .pass (.banner b) => prependBanner (b.lines.map .str) (.str b.marker)
  | .pass (.keyCase replacements) =>
    rewriteEach (onText (rewriting (KeyCase.lowerKeys replacements)))
  | .pass .geometry =>
    rewriteEach (onText fun t =>
      let recovery := Recovery.ofLine t
      if recovery.changed then some (.str recovery.text) else none)
  | .pass (.pinInfo cells) => mergePinInfo (onText (PinInfo.lookUp cells))

end Operation

/-- The stores that can be had: one that is built of items, and what an operation leaves of one,
whether or not it ends in a fault. -/
inductive Store.Reached : Store → Prop
  | built {items s : Store} (h : ofItems items = .ok s) : Reached s
  | left {s : Store} (h : Reached s) (o : Operation) : Reached (o.work.runOn s).2

end NetlistPrep
