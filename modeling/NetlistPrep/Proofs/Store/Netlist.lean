import NetlistPrep.Proofs.Recovery
import NetlistPrep.Proofs.Store

/-!
# Operations on the items of a netlist

A store of lines is the items of a netlist (`areLines_iff`), and what an operation does to them is
what the command that asks for it does to the netlist (`runOn_ofCommand`). `lines_of_reached` puts
this together with what holds of every store that can be had.
-/

namespace NetlistPrep

open Outcome PinInfo

theorem Netlist.items_eq (n : Netlist) : n.items = n.lines.map fun l => .str l.text := by
  simp [Netlist.items, Netlist.texts]

@[simp]
theorem Netlist.length_items (n : Netlist) : n.items.length = n.size := by
  simp [Netlist.items_eq, Netlist.size]

namespace Store

theorem checked_eq (v : Json) : checked v = (Line.ofJson v).map fun l => .str l.text := by
  cases v with
  | str t => by_cases h : '\n' ∈ t <;> simp [checked, Line.ofJson, Line.ofText, h, Except.map]
  | _ => rfl

theorem ofItems_eq (items : List Json) :
    ofItems items = (items.mapM Line.ofJson).map fun lines => Netlist.items ⟨lines⟩ := by
  induction items with
  | nil => rfl
  | cons v items ih =>
    rw [ofItems_cons, List.mapM_cons, checked_eq, ih]
    cases Line.ofJson v with
    | error fault => rfl
    | ok l => cases items.mapM Line.ofJson <;> rfl

/-- **A store of lines is the items of a netlist.** -/
theorem areLines_iff {s : Store} : AreLines s ↔ ∃ n : Netlist, s = n.items := by
  constructor
  · intro hs
    have hchecked : ofItems s = .ok s := ofItems_eq_ok_iff.2 ⟨hs, rfl⟩
    rw [ofItems_eq, map_eq_ok_iff] at hchecked
    obtain ⟨lines, -, h⟩ := hchecked
    exact ⟨⟨lines⟩, h.symm⟩
  · rintro ⟨n, rfl⟩ line hline
    rw [Netlist.items_eq] at hline
    obtain ⟨l, -, rfl⟩ := List.mem_map.1 hline
    exact ⟨l.text, rfl, l.noLineFeed⟩

/-! ## Changes in one place -/

theorem position?_eq (n : Netlist) (index : Int) :
    n.position? index =
      if -(n.size : Int) ≤ index ∧ index < n.size then some (place n.size index).toNat else none :=
  rfl

theorem runOn_edit (e : Edit) (n : Netlist) :
    (edit e).runOn n.items = match e.apply n with
      | .ok m => (.ok (), m.items)
      | .error fault => (.error fault, n.items) := by
  cases e with
  | prepend line =>
    rw [edit, runOn_prepend, checked_eq, Edit.apply]
    cases Line.ofJson line <;> rfl
  | prependBlock block =>
    rw [edit, runOn_prependBlock, ofItems_eq, Edit.apply]
    cases block.mapM Line.ofJson with
    | error fault => rfl
    | ok lines =>
      have h : (n.prependBlock lines).items = Netlist.items ⟨lines⟩ ++ n.items := by
        simp [Netlist.items_eq, Netlist.prependBlock]
      exact congrArg (Prod.mk _) h.symm
  | replace index line =>
    rw [edit, runOn_replace, checked_eq, Edit.apply]
    cases Line.ofJson line with
    | error fault => rfl
    | ok l =>
      have hset : ∀ p, (n.replace p l).items = n.items.set p (.str l.text) := fun p => by
        simp [Netlist.items_eq, Netlist.replace, List.map_set]
      simp only [Except.map, ok_bind, position?_eq, place_mem_iff, Netlist.length_items]
      by_cases h : -(n.size : Int) ≤ index ∧ index < n.size
      · simp only [if_pos h]
        exact congrArg (Prod.mk _) (hset _).symm
      · simp only [if_neg h]
        rfl
  | insertAfter index line =>
    rw [edit, runOn_insertAfter, checked_eq, Edit.apply, Netlist.length_items, position?_eq]
    by_cases h : -(n.size : Int) ≤ index ∧ index < n.size
    · simp only [if_pos h]
      cases Line.ofJson line with
      | error fault => rfl
      | ok l =>
        have hplace : (place n.size index + 1).toNat = (place n.size index).toNat + 1 := by
          have := (place_mem_iff.2 h).1
          omega
        have hinsert : ∀ p, (n.insertAfter p l).items = insertAt (p + 1) (.str l.text) n.items :=
          fun p => by simp [Netlist.items_eq, Netlist.insertAfter, insertAt]
        exact congrArg (Prod.mk _) (hplace ▸ (hinsert _).symm)
    · simp only [if_neg h]
      rfl

/-! ### At a position -/

theorem position?_natCast {n : Netlist} {i : Nat} (h : i < n.size) : n.position? i = some i := by
  have hi : ¬ (i : Int) < 0 := by omega
  rw [position?_eq, if_pos (by omega), place, if_neg hi, Int.toNat_natCast]

theorem runOn_replace_natCast {n : Netlist} {i : Nat} (h : i < n.size) (t : Text) :
    (replace i (.str t)).runOn n.items = match Line.ofText t with
      | .ok l => (.ok (), (n.replace i l).items)
      | .error fault => (.error fault, n.items) := by
  have hrun := runOn_edit (.replace i (.str t)) n
  rw [edit, Edit.apply, position?_natCast h, Line.ofJson] at hrun
  rw [hrun]
  cases Line.ofText t <;> rfl

theorem runOn_insertAfter_natCast {n : Netlist} {i : Nat} (h : i < n.size) (t : Text) :
    (insertAfter i (.str t)).runOn n.items = match Line.ofText t with
      | .ok l => (.ok (), (n.insertAfter i l).items)
      | .error fault => (.error fault, n.items) := by
  have hrun := runOn_edit (.insertAfter i (.str t)) n
  rw [edit, Edit.apply, position?_natCast h, Line.ofJson] at hrun
  rw [hrun]
  cases Line.ofText t <;> rfl

/-! ## Sections and banners -/

theorem anyM_onText (f : Text → Bool) (texts : List Text) :
    (texts.map Json.str).anyM (onText f) = .ok (texts.any f) := by
  induction texts with
  | nil => rfl
  | cons t texts ih =>
    rw [List.map_cons, List.anyM, List.any_cons, onText, ok_bind]
    cases f t with
    | true => rfl
    | false => exact ih

theorem runOn_ensureSections (sections : List Section) (n : Netlist) :
    (ensureSections (sections.map Requirement.ofSection)).runOn n.items =
      ((Netlist.ensureSections sections n).2.map (·.map .str),
        (Netlist.ensureSections sections n).1.items) := by
  induction sections generalizing n with
  | nil => rfl
  | cons s rest ih =>
    have hmet : (Requirement.ofSection s).isMetBy n.items = .ok (s.isIn n) :=
      anyM_onText _ n.texts
    rw [List.map_cons, ensureSections, Work.runOn_bind, Work.runOn_get]
    simp only [Work.runOn_bind, Work.runOn_lift, hmet, Netlist.ensureSections]
    cases s.isIn n with
    | true => exact ih n
    | false =>
      have hline : checked (Requirement.ofSection s).defaultLine =
          (Line.ofText s.defaultLine).map fun l => .str l.text := checked_eq (.str s.defaultLine)
      simp only [Bool.false_eq_true, if_false, Work.runOn_bind, runOn_prepend, hline]
      cases Line.ofText s.defaultLine with
      | error fault => rfl
      | ok l =>
        have hprepend : Json.str l.text :: n.items = (n.prepend l).items := rfl
        simp only [Except.map, hprepend, ih]
        cases (Netlist.ensureSections rest (n.prepend l)).2 <;> rfl

theorem runOn_prependBanner (b : Banner) (n : Netlist) :
    (prependBanner (b.lines.map .str) (.str b.marker)).runOn n.items =
      ((n.prependBanner b).2, (n.prependBanner b).1.items) := by
  have hmarker : n.items.any (sameText (.str b.marker)) = decide (b.marker ∈ n.texts) := by
    simp only [Netlist.items, List.any_map, Function.comp_def, sameText]
    rw [List.any_beq, List.contains_eq_mem]
  have hlines : ofItems (b.lines.map .str) =
      (b.lines.mapM Line.ofText).map fun lines => Netlist.items ⟨lines⟩ := by
    rw [ofItems_eq, List.mapM_map]
    rfl
  rw [prependBanner, Work.runOn_bind, Work.runOn_get]
  simp only [hmarker, Netlist.prependBanner]
  by_cases h : b.marker ∈ n.texts
  · simp [h]
  · simp only [h, decide_false, Bool.false_eq_true, if_false, Work.runOn_bind, runOn_prependBlock,
      hlines]
    cases b.lines.mapM Line.ofText with
    | error fault => rfl
    | ok lines =>
      have hblock : Netlist.items ⟨lines⟩ ++ n.items = (n.prependBlock lines).items := by
        simp [Netlist.items_eq, Netlist.prependBlock]
      exact congrArg (Prod.mk _) hblock

/-! ## Rewriting line by line -/

/-- The lines behind the position are those that stood there, so the walk over the lines of the
start sees what stands there now. -/
theorem runOn_rewriteFrom (f : Text → Text) (done rest : List Line) (changed : Nat) :
    (rewriteFrom (onText (rewriting f)) done.length changed (Netlist.items ⟨rest⟩)).runOn
        (Netlist.items ⟨done ++ rest⟩) =
      ((Netlist.rewriteLines f rest).2.map (· + changed),
        Netlist.items ⟨done ++ (Netlist.rewriteLines f rest).1⟩) := by
  induction rest generalizing done changed with
  | nil => simp [rewriteFrom, Netlist.items, Netlist.texts, Netlist.rewriteLines, Except.map]
  | cons l rest ih =>
    have hitems : Netlist.items ⟨l :: rest⟩ = .str l.text :: Netlist.items ⟨rest⟩ := rfl
    rw [hitems, rewriteFrom, Work.runOn_bind, onText, Work.runOn_lift, rewriting,
      Netlist.rewriteLines]
    by_cases h : f l.text = l.text
    · have hrest := ih (done ++ [l]) changed
      simp only [List.length_append, List.length_singleton, List.append_assoc,
        List.singleton_append] at hrest
      simp only [h, if_true, hrest]
    · have hi : done.length < (Netlist.mk (done ++ l :: rest)).size := by simp [Netlist.size]
      simp only [h, if_false, Work.runOn_bind, runOn_replace_natCast hi]
      cases Line.ofText (f l.text) with
      | error fault => rfl
      | ok l' =>
        have hrest := ih (done ++ [l']) (changed + 1)
        have hset : Netlist.replace done.length l' ⟨done ++ l :: rest⟩ = ⟨done ++ l' :: rest⟩ := by
          simp [Netlist.replace]
        simp only [List.length_append, List.length_singleton, List.append_assoc,
          List.singleton_append] at hrest
        simp only [hset, hrest]
        cases (Netlist.rewriteLines f rest).2 with
        | error fault => rfl
        | ok count => simp [Except.map]; omega

theorem runOn_rewriteEach (f : Text → Text) (n : Netlist) :
    (rewriteEach (onText (rewriting f))).runOn n.items =
      ((n.rewrite f).2, (n.rewrite f).1.items) := by
  have h := runOn_rewriteFrom f [] n.lines 0
  have hzero : (Netlist.rewriteLines f n.lines).2.map (· + 0) =
      (Netlist.rewriteLines f n.lines).2 := by
    cases (Netlist.rewriteLines f n.lines).2 <;> rfl
  rw [hzero] at h
  rw [rewriteEach, Work.runOn_bind, Work.runOn_get]
  exact h

/-! ## Merging -/

theorem getElem?_items (n : Netlist) (i : Nat) :
    n.items[i]? = n.lines[i]?.map fun l => .str l.text := by
  rw [Netlist.items_eq, List.getElem?_map]

theorem getElem?_items_of_eq_some {n : Netlist} {i : Nat} {l : Line} (h : n.lines[i]? = some l) :
    n.items[i]? = some (.str l.text) := by
  rw [getElem?_items, h]
  rfl

theorem mergeFrom_of_getElem? {look : Json → Except Fault Match} {i : Nat} {stats : Stats}
    {s : Store} {line : Json} (h : s[i]? = some line) :
    mergeFrom look i stats s = match look line with
      | .error fault => (.error fault, s)
      | .ok .nothing => mergeFrom look (i + 1) stats s
      | .ok (.unknown name) =>
        mergeFrom look (i + 1) { stats with unmatched := stats.unmatched ++ [name] } s
      | .ok (.known info) =>
        if s[i + 1]?.any isPinInfo then
          match (replace (i + 1 : Nat) (.str info)).runOn s with
          | (.error fault, s') => (.error fault, s')
          | (.ok (), s') => mergeFrom look (i + 2) { stats with replaced := stats.replaced + 1 } s'
        else
          match (insertAfter i (.str info)).runOn s with
          | (.error fault, s') => (.error fault, s')
          | (.ok (), s') =>
            mergeFrom look (i + 2) { stats with inserted := stats.inserted + 1 } s' := by
  conv => lhs; rw [mergeFrom]
  split
  · simp_all
  · rename_i line' hline'
    obtain rfl : line = line' := Option.some.inj (h.symm.trans hline')
    rcases look line with fault | _ | name | info
    · rfl
    · rfl
    · rfl
    · dsimp only
      split
      all_goals
        split
        all_goals
          rename_i hrun
          rw [hrun]

theorem any_isPinInfo (n : Netlist) (i : Nat) :
    n.items[i]?.any isPinInfo = n.lines[i]?.any PinInfo.isPinInfo := by
  rw [getElem?_items, Option.any_map]
  rfl

theorem lt_size_of_isPinInfo {n : Netlist} {i : Nat} (h : n.items[i]?.any isPinInfo = true) :
    i < n.size := by
  obtain ⟨v, hv, -⟩ := Option.any_eq_true _ _ |>.1 h
  rw [← Netlist.length_items]
  exact (List.getElem?_eq_some_iff.1 hv).1

theorem mergeFrom_items (t : CellTable) (i : Nat) (stats : Stats) (n : Netlist) :
    mergeFrom (onText (lookUp t)) i stats n.items =
      ((n.mergeFrom t i stats).2, (n.mergeFrom t i stats).1.items) := by
  fun_induction Netlist.mergeFrom t i stats n with
  | case1 i s n hend =>
    rw [mergeFrom]
    split
    · rfl
    · simp_all [getElem?_items]
  | case2 i s n l hl hnothing ih =>
    rw [mergeFrom_of_getElem? (getElem?_items_of_eq_some hl), onText, hnothing]
    exact ih
  | case3 i s n l hl name hunknown ih =>
    rw [mergeFrom_of_getElem? (getElem?_items_of_eq_some hl), onText, hunknown]
    exact ih
  | case4 i s n l hl text hknown fault hfault =>
    have hi : i < n.size := (List.getElem?_eq_some_iff.1 hl).1
    rw [mergeFrom_of_getElem? (getElem?_items_of_eq_some hl), onText, hknown]
    dsimp only
    split
    · rename_i hstale
      have hnext := lt_size_of_isPinInfo hstale
      simp only [runOn_replace_natCast hnext, hfault]
    · simp only [runOn_insertAfter_natCast hi, hfault]
  | case5 i s n l hl text hknown info hinfo hstale ih =>
    have hstale' : n.items[i + 1]?.any isPinInfo = true := any_isPinInfo n _ ▸ hstale
    have hnext := lt_size_of_isPinInfo hstale'
    rw [mergeFrom_of_getElem? (getElem?_items_of_eq_some hl), onText, hknown]
    simp only [if_pos hstale', runOn_replace_natCast hnext, hinfo]
    exact ih
  | case6 i s n l hl text hknown info hinfo hstale ih =>
    have hi : i < n.size := (List.getElem?_eq_some_iff.1 hl).1
    rw [mergeFrom_of_getElem? (getElem?_items_of_eq_some hl), onText, hknown]
    simp only [any_isPinInfo, if_neg hstale, runOn_insertAfter_natCast hi, hinfo]
    exact ih

theorem runOn_mergePinInfo (t : CellTable) (n : Netlist) :
    (mergePinInfo (onText (lookUp t))).runOn n.items =
      ((n.mergePinInfo t).2, (n.mergePinInfo t).1.items) := mergeFrom_items t 0 {} n

end Store

/-! ## Commands -/

open Store

theorem recovering_eq : (fun t =>
      let recovery := Recovery.ofLine t
      if recovery.changed then some (Json.str recovery.text) else none) =
    rewriting fun t => (Recovery.ofLine t).text := by
  funext t
  have h := Recovery.text_ofLine_eq_self_iff t
  cases hc : (Recovery.ofLine t).changed with
  | false => simp [rewriting, h.2 hc, hc]
  | true =>
    have hne : (Recovery.ofLine t).text ≠ t := fun he => by simp [h.1 he] at hc
    simp [rewriting, hne, hc]

/-- **The operation that a command asks for does what the command does,** and fails with the same
fault. -/
theorem Operation.runOn_ofCommand (c : Command) (n : Netlist) :
    (ofCommand c).work.runOn n.items = ((c.run n).2.map fun _ => (), (c.run n).1.items) := by
  cases c with
  | edit e =>
    rw [ofCommand, work, runOn_edit, Command.run]
    cases e.apply n <;> rfl
  | pass p =>
    cases p with
    | sectionDefaults sections =>
      rw [ofCommand, work, Work.runOn_discard, runOn_ensureSections]
      simp only [Command.run, Pass.work, map_map_unit]
    | banner b =>
      rw [ofCommand, work, Work.runOn_discard, runOn_prependBanner]
      simp only [Command.run, Pass.work, map_map_unit]
    | keyCase replacements =>
      rw [ofCommand, work, Work.runOn_discard, runOn_rewriteEach]
      simp only [Command.run, Pass.work, Netlist.lowerKeys, map_map_unit]
    | geometry =>
      rw [ofCommand, work, Work.runOn_discard, recovering_eq, runOn_rewriteEach]
      simp only [Command.run, Pass.work, Netlist.recoverGeometry, map_map_unit]
    | pinInfo cells =>
      rw [ofCommand, work, Work.runOn_discard, runOn_mergePinInfo]
      simp only [Command.run, Pass.work, map_map_unit]

/-- **Every store that can be had holds lines,** whatever the operations on the way are called with
and whether or not they end in faults. In such a store a change in one place that ends in a fault
changes nothing, a line is put in right behind the one that the index means, and what a command asks
for does what the command does to the netlist of the lines. -/
theorem Store.lines_of_reached {s : Store} (h : Reached s) :
    (∀ line ∈ s, ∃ t, line = .str t ∧ '\n' ∉ t) ∧
      (∀ e fault s', (edit e).runOn s = (.error fault, s') →
        s' = s ∧ (fault.toClass = .invalid ∨ fault.toClass = .range)) ∧
      (∀ index line s', (insertAfter index line).runOn s = (.ok (), s') ↔
        IsLine line ∧ ∃ before x after, s = before ++ x :: after ∧
          ((before.length : Int) = index ∨ (before.length : Int) = index + s.length) ∧
          s' = before ++ x :: line :: after) ∧
      ∃ n : Netlist, s = n.items ∧ ∀ c : Command,
        (Operation.ofCommand c).work.runOn s =
          ((c.run n).2.map fun _ => (), (c.run n).1.items) := by
  obtain ⟨n, rfl⟩ := areLines_iff.1 h.areLines
  exact ⟨h.areLines, fun _ _ _ => runOn_edit_of_fault, fun _ _ _ => runOn_insertAfter_eq_ok_iff,
    n, rfl, fun c => Operation.runOn_ofCommand c n⟩

/-- The second default line is no line, so the sections stop halfway and leave the first one there;
a line goes in behind it. -/
theorem Store.lines_of_reached_halfway :
    ∃ s, Reached s ∧ s = [.str ".PARAM".toList, .str "R1 a b".toList] ∧
      (insertAfter (-2) (.str "*.MEGA".toList)).runOn s =
        (.ok (), [.str ".PARAM".toList, .str "*.MEGA".toList, .str "R1 a b".toList]) := by
  have hbuilt : Reached [.str "R1 a b".toList] :=
    .built (ofItems_eq_ok_iff.2 ⟨by simp [AreLines, IsLine], rfl⟩)
  have hreached := hbuilt.left (.ensureSections
    [.ofSection ⟨".PARAM".toList, ".PARAM".toList⟩, ⟨fun _ => .ok false, .null⟩])
  refine ⟨_, hreached, rfl, ?_⟩
  obtain ⟨-, -, hinsert, -⟩ := lines_of_reached hreached
  exact (hinsert _ _ _).2
    ⟨⟨_, rfl, by decide⟩, [], .str ".PARAM".toList, [.str "R1 a b".toList], rfl, .inr rfl, rfl⟩

end NetlistPrep
