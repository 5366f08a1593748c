import NetlistPrep.Proofs.Outcome
import NetlistPrep.Store

/-!
# Operations keep lines

* `Keeps` tells of work that leaves lines where it found lines, whether or not it ends in a fault.
  It goes through sequences of work, so every operation keeps lines as far as the four changes in
  one place do (`Operation.keeps`).
* `runOn_edit_of_fault`: a change in one place that ends in a fault has changed nothing.
* `runOn_insertAfter_eq_ok_iff`: a line is put in right behind the one that the index means.
-/

namespace NetlistPrep

open Outcome

/-- Plain data that is a text without a line feed. -/
def IsLine (v : Json) : Prop := ∃ t, v = .str t ∧ '\n' ∉ t

def AreLines (s : Store) : Prop := ∀ line ∈ s, IsLine line

/-! ## What is checked -/

namespace Store

theorem checked_eq_ok_iff {v line : Json} : checked v = .ok line ↔ IsLine v ∧ v = line := by
  cases v with
  | str t => by_cases h : '\n' ∈ t <;> simp [checked, IsLine, h]
  | _ => simp [checked, IsLine]

theorem toClass_of_checked {v : Json} {fault : Fault} (h : checked v = .error fault) :
    fault.toClass = .invalid := by
  cases v with
  | str t =>
    simp only [checked] at h
    split at h
    · rw [← Except.error.inj h]
      rfl
    · simp at h
  | _ =>
    rw [← Except.error.inj h]
    rfl

theorem ofItems_cons (v : Json) (items : List Json) :
    ofItems (v :: items) = (do
      let line ← checked v
      let s ← ofItems items
      return line :: s) :=
  List.mapM_cons

/-- **A store is built of lines only,** and holds them as they are given. -/
theorem ofItems_eq_ok_iff {items : List Json} {s : Store} :
    ofItems items = .ok s ↔ AreLines items ∧ items = s := by
  induction items generalizing s with
  | nil =>
    refine ⟨fun h => ⟨by simp [AreLines], Except.ok.inj h⟩, ?_⟩
    rintro ⟨-, rfl⟩
    rfl
  | cons v items ih =>
    rw [ofItems_cons, bind_eq_ok_iff, AreLines, List.forall_mem_cons]
    constructor
    · rintro ⟨line, hline, h⟩
      obtain ⟨s', hs', h⟩ := bind_eq_ok_iff.1 h
      obtain ⟨hv, rfl⟩ := checked_eq_ok_iff.1 hline
      obtain ⟨hitems, rfl⟩ := ih.1 hs'
      exact ⟨⟨hv, hitems⟩, Except.ok.inj h⟩
    · rintro ⟨⟨hv, hitems⟩, rfl⟩
      exact ⟨v, checked_eq_ok_iff.2 ⟨hv, rfl⟩, bind_eq_ok_iff.2 ⟨items, ih.2 ⟨hitems, rfl⟩, rfl⟩⟩

theorem toClass_of_ofItems {items : List Json} {fault : Fault} (h : ofItems items = .error fault) :
    fault.toClass = .invalid := by
  induction items with
  | nil => simp [ofItems, pure, Except.pure] at h
  | cons v items ih =>
    rw [ofItems_cons] at h
    cases hv : checked v with
    | error fault' =>
      rw [hv] at h
      rw [← Except.error.inj h]
      exact toClass_of_checked hv
    | ok line =>
      cases hitems : ofItems items with
      | error fault' =>
        rw [hv, hitems] at h
        exact ih (hitems.trans (congrArg _ (Except.error.inj h)))
      | ok s =>
        rw [hv, hitems] at h
        simp [bind, Except.bind, pure, Except.pure] at h

end Store

/-! ## Work that keeps lines -/

/-- Lines are left where there were lines, whatever the answer is. -/
def Keeps {α : Type} (w : Work α) : Prop := ∀ s, AreLines s → AreLines (w.runOn s).2

namespace Keeps

variable {α β : Type}

theorem pure (a : α) : Keeps (Pure.pure a : Work α) := fun _ hs => hs

theorem throw (fault : Fault) : Keeps (MonadExcept.throw fault : Work α) := fun _ hs => hs

theorem get : Keeps (MonadState.get : Work Store) := fun _ hs => hs

/-- What is done after something that may fail is done only where it gave a value. -/
theorem lift_bind {x : Except Fault α} {f : α → Work β} (h : ∀ a, x = .ok a → Keeps (f a)) :
    Keeps (liftM x >>= f) := by
  intro s hs
  rw [Work.runOn_bind, Work.runOn_lift]
  cases x with
  | error fault => exact hs
  | ok a => exact h a rfl s hs

theorem bind {w : Work α} {f : α → Work β} (hw : Keeps w) (hf : ∀ a, Keeps (f a)) :
    Keeps (w >>= f) := by
  intro s hs
  have hs' := hw s hs
  rw [Work.runOn_bind]
  generalize w.runOn s = r at hs'
  obtain ⟨answer, s'⟩ := r
  cases answer with
  | error fault => exact hs'
  | ok a => exact hf a s' hs'

theorem discard {w : Work α} (hw : Keeps w) : Keeps (Functor.discard w) := by
  intro s hs
  rw [Work.runOn_discard]
  exact hw s hs

theorem of_runOn_eq {w : Work α} (hw : Keeps w) {s s' : Store} {answer : Except Fault α}
    (hs : AreLines s) (h : w.runOn s = (answer, s')) : AreLines s' := by
  have := hw s hs
  rwa [h] at this

end Keeps

namespace Store

/-! ## Changes in one place -/

theorem eq_cons_of_runOn_prepend {line : Json} {s s' : Store}
    (h : (prepend line).runOn s = (.ok (), s')) : s' = line :: s := by
  rw [runOn_prepend] at h
  cases hline : checked line with
  | error fault => simp [hline] at h
  | ok line' =>
    obtain ⟨-, rfl⟩ := checked_eq_ok_iff.1 hline
    simpa [hline, eq_comm] using h

theorem keeps_prepend (line : Json) : Keeps (prepend line) :=
  .lift_bind fun line' h s hs => by
    obtain ⟨hline, rfl⟩ := checked_eq_ok_iff.1 h
    exact List.forall_mem_cons.2 ⟨hline, hs⟩

theorem keeps_prependBlock (block : List Json) : Keeps (prependBlock block) :=
  .lift_bind fun block' h s hs => by
    obtain ⟨hblock, rfl⟩ := ofItems_eq_ok_iff.1 h
    exact List.forall_mem_append.2 ⟨hblock, hs⟩

theorem keeps_replace (index : Int) (line : Json) : Keeps (replace index line) :=
  .lift_bind fun line' h => .bind .get fun s => by
    obtain ⟨hline, rfl⟩ := checked_eq_ok_iff.1 h
    dsimp only
    split
    · intro s hs l hl
      rcases List.mem_or_eq_of_mem_set hl with hl | rfl
      · exact hs l hl
      · exact hline
    · exact .throw _

theorem keeps_insertAfter (index : Int) (line : Json) : Keeps (insertAfter index line) :=
  .bind .get fun s => by
    dsimp only
    split
    · refine .lift_bind fun line' h s hs l hl => ?_
      obtain ⟨hline, rfl⟩ := checked_eq_ok_iff.1 h
      rcases List.mem_append.1 hl with hl | hl
      · exact hs l (List.mem_of_mem_take hl)
      · rcases List.mem_cons.1 hl with rfl | hl
        · exact hline
        · exact hs l (List.mem_of_mem_drop hl)
    · exact .throw _

theorem keeps_edit (e : Edit) : Keeps (edit e) :=
  match e with
  | .prepend line => keeps_prepend line
  | .prependBlock block => keeps_prependBlock block
  | .replace index line => keeps_replace index line
  | .insertAfter index line => keeps_insertAfter index line

/-! ## Operations that are made of them -/

theorem keeps_ensureSections (requirements : List Requirement) :
    Keeps (ensureSections requirements) := by
  induction requirements with
  | nil => exact .pure []
  | cons r rest ih =>
    refine .bind .get fun s => .lift_bind fun isMet _ => ?_
    split
    · exact ih
    · exact .bind (keeps_prepend _) fun _ => .bind ih fun _ => .pure _

/-- **What sections put in stands in front, the last one first,** whatever they are known by. -/
theorem eq_append_of_runOn_ensureSections {requirements : List Requirement} {s s' : Store}
    {inserted : List Json}
    (h : (ensureSections requirements).runOn s = (.ok inserted, s')) :
    s' = inserted.reverse ++ s := by
  induction requirements generalizing s inserted with
  | nil =>
    obtain ⟨rfl, rfl⟩ : [] = inserted ∧ s = s' := by
      simpa [ensureSections] using h
    rfl
  | cons r rest ih =>
    rw [ensureSections, Work.runOn_bind, Work.runOn_get] at h
    obtain ⟨isMet, s₁, hmet, h⟩ := Work.runOn_bind_eq_ok_iff.1 h
    obtain ⟨-, rfl⟩ := Prod.mk.inj hmet
    split at h
    · exact ih h
    · obtain ⟨⟨⟩, s₁, hprepend, h⟩ := Work.runOn_bind_eq_ok_iff.1 h
      obtain ⟨others, s₂, hrest, h⟩ := Work.runOn_bind_eq_ok_iff.1 h
      obtain ⟨rfl, rfl⟩ : r.defaultLine :: others = inserted ∧ s₂ = s' := by simpa using h
      obtain rfl := eq_cons_of_runOn_prepend hprepend
      rw [ih hrest, List.reverse_cons, List.append_assoc, List.singleton_append]

theorem keeps_prependBanner (banner : List Json) (marker : Json) :
    Keeps (prependBanner banner marker) :=
  .bind .get fun s => by
    split
    · exact .pure false
    · exact .bind (keeps_prependBlock banner) fun _ => .pure true

theorem keeps_rewriteFrom (f : Json → Except Fault (Option Json)) (i changed : Nat)
    (lines : List Json) : Keeps (rewriteFrom f i changed lines) := by
  induction lines generalizing i changed with
  | nil => exact .pure changed
  | cons line rest ih =>
    refine .lift_bind fun fixed _ => ?_
    cases fixed with
    | none => exact ih _ _
    | some fixed => exact .bind (keeps_replace _ _) fun _ => ih _ _

theorem keeps_rewriteEach (f : Json → Except Fault (Option Json)) : Keeps (rewriteEach f) :=
  .bind .get fun s => keeps_rewriteFrom f 0 0 s

theorem areLines_mergeFrom (look : Json → Except Fault PinInfo.Match) (i : Nat)
    (stats : PinInfo.Stats) {s : Store} (hs : AreLines s) :
    AreLines (mergeFrom look i stats s).2 := by
  fun_induction mergeFrom look i stats s with
  | case1 i stats s hend => exact hs
  | case2 i stats s line hline fault hlook => exact hs
  | case3 i stats s line hline hlook ih => exact ih hs
  | case4 i stats s line hline name hlook ih => exact ih hs
  | case5 i stats s line hline info hlook hstale fault s' hrun =>
    exact (keeps_replace _ _).of_runOn_eq hs hrun
  | case6 i stats s line hline info hlook hstale s' hrun ih =>
    exact ih ((keeps_replace _ _).of_runOn_eq hs hrun)
  | case7 i stats s line hline info hlook hstale fault s' hrun =>
    exact (keeps_insertAfter _ _).of_runOn_eq hs hrun
  | case8 i stats s line hline info hlook hstale s' hrun ih =>
    exact ih ((keeps_insertAfter _ _).of_runOn_eq hs hrun)

theorem keeps_mergePinInfo (look : Json → Except Fault PinInfo.Match) :
    Keeps (mergePinInfo look) := fun _ hs => areLines_mergeFrom look 0 {} hs

/-! ## What a change in one place does -/

/-- **A change in one place that ends in a fault has changed nothing.** -/
theorem runOn_edit_of_fault {e : Edit} {s s' : Store} {fault : Fault}
    (h : (edit e).runOn s = (.error fault, s')) :
    s' = s ∧ (fault.toClass = .invalid ∨ fault.toClass = .range) := by
  cases e with
  | prepend line =>
    rw [edit, runOn_prepend] at h
    cases hline : checked line with
    | ok line => simp [hline] at h
    | error fault' =>
      obtain ⟨rfl, rfl⟩ : fault' = fault ∧ s = s' := by simpa [hline] using h
      exact ⟨rfl, .inl (toClass_of_checked hline)⟩
  | prependBlock block =>
    rw [edit, runOn_prependBlock] at h
    cases hblock : ofItems block with
    | ok block => simp [hblock] at h
    | error fault' =>
      obtain ⟨rfl, rfl⟩ : fault' = fault ∧ s = s' := by simpa [hblock] using h
      exact ⟨rfl, .inl (toClass_of_ofItems hblock)⟩
  | replace index line =>
    rw [edit, runOn_replace] at h
    cases hline : checked line with
    | ok line =>
      simp only [hline] at h
      split at h
      · simp at h
      · obtain ⟨rfl, rfl⟩ : Fault.noSuchLine = fault ∧ s = s' := by simpa using h
        exact ⟨rfl, .inr rfl⟩
    | error fault' =>
      obtain ⟨rfl, rfl⟩ : fault' = fault ∧ s = s' := by simpa [hline] using h
      exact ⟨rfl, .inl (toClass_of_checked hline)⟩
  | insertAfter index line =>
    rw [edit, runOn_insertAfter] at h
    split at h
    · cases hline : checked line with
      | ok line => simp [hline] at h
      | error fault' =>
        obtain ⟨rfl, rfl⟩ : fault' = fault ∧ s = s' := by simpa [hline] using h
        exact ⟨rfl, .inl (toClass_of_checked hline)⟩
    · obtain ⟨rfl, rfl⟩ : Fault.outOfRange index = fault ∧ s = s' := by simpa using h
      exact ⟨rfl, .inr rfl⟩

theorem place_mem_iff {size : Nat} {index : Int} :
    (0 ≤ place size index ∧ place size index < size) ↔ -(size : Int) ≤ index ∧ index < size := by
  unfold place
  split <;> omega

theorem insertAt_append (before after : Store) (x line : Json) :
    insertAt (before.length + 1) line (before ++ x :: after) =
      before ++ x :: line :: after := by
  have htake : before.take (before.length + 1) = before := List.take_of_length_le (Nat.le_succ _)
  simp [insertAt, List.take_append, htake]

/-- An item stands where an index means it, counted from the start or from the end. -/
theorem runOn_insertAfter_append {index : Int} {line : Json} (hline : IsLine line)
    {before after : Store} {x : Json}
    (h : (before.length : Int) = index ∨
      (before.length : Int) = index + (before ++ x :: after).length) :
    (insertAfter index line).runOn (before ++ x :: after) =
      (.ok (), before ++ x :: line :: after) := by
  have hlength : (before ++ x :: after).length = before.length + (after.length + 1) := by simp
  have hplace : place (before ++ x :: after).length index = before.length := by
    unfold place
    split <;> omega
  have hindex : (place (before ++ x :: after).length index + 1).toNat = before.length + 1 := by
    omega
  rw [runOn_insertAfter, if_pos (by omega), checked_eq_ok_iff.2 ⟨hline, rfl⟩]
  simp only [hindex, insertAt_append]

theorem exists_eq_append_of_index {s : Store} {index : Int}
    (h : -(s.length : Int) ≤ index ∧ index < s.length) :
    ∃ before x after, s = before ++ x :: after ∧
      ((before.length : Int) = index ∨ (before.length : Int) = index + s.length) := by
  obtain ⟨p, hlt, hp⟩ : ∃ p, p < s.length ∧ ((p : Int) = index ∨ (p : Int) = index + s.length) := by
    rcases Int.lt_or_le index 0 with hneg | hpos
    · exact ⟨(index + s.length).toNat, by omega, by omega⟩
    · exact ⟨index.toNat, by omega, by omega⟩
  refine ⟨s.take p, s[p], s.drop (p + 1), ?_, ?_⟩
  · rw [List.getElem_cons_drop, List.take_append_drop]
  · rwa [List.length_take_of_le (Nat.le_of_lt hlt)]

/-- **A line is put in right behind the one that the index means,** and only there: all others keep
their order. -/
theorem runOn_insertAfter_eq_ok_iff {index : Int} {line : Json} {s s' : Store} :
    (insertAfter index line).runOn s = (.ok (), s') ↔
      IsLine line ∧ ∃ before x after, s = before ++ x :: after ∧
        ((before.length : Int) = index ∨ (before.length : Int) = index + s.length) ∧
        s' = before ++ x :: line :: after := by
  constructor
  · intro h
    have hrange : -(s.length : Int) ≤ index ∧ index < s.length := by
      refine Decidable.byContradiction fun hout => ?_
      simp [runOn_insertAfter, hout] at h
    have hline : IsLine line := by
      cases hc : checked line with
      | ok line' => exact (checked_eq_ok_iff.1 hc).1
      | error fault => simp [runOn_insertAfter, hrange, hc] at h
    obtain ⟨before, x, after, rfl, hindex⟩ := exists_eq_append_of_index hrange
    rw [runOn_insertAfter_append hline hindex] at h
    exact ⟨hline, before, x, after, rfl, hindex, (Prod.mk.inj h).2.symm⟩
  · rintro ⟨hline, before, x, after, rfl, hindex, rfl⟩
    exact runOn_insertAfter_append hline hindex

end Store

/-! ## Operations -/

namespace Operation

theorem keeps (o : Operation) : Keeps o.work := by
  cases o with
  | edit e => exact Store.keeps_edit e
  | ensureSections requirements => exact (Store.keeps_ensureSections requirements).discard
  | prependBanner banner marker => exact (Store.keeps_prependBanner banner marker).discard
  | rewriteEach f => exact (Store.keeps_rewriteEach f).discard
  | mergePinInfo look => exact (Store.keeps_mergePinInfo look).discard

end Operation

/-- **Every store that can be had holds lines.** -/
theorem Store.Reached.areLines {s : Store} (h : Reached s) : AreLines s := by
  induction h with
  | built h =>
    obtain ⟨hitems, rfl⟩ := ofItems_eq_ok_iff.1 h
    exact hitems
  | left h o ih => exact o.keeps _ ih

end NetlistPrep
