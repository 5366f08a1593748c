import NetlistPrep.Proofs.Pass
import NetlistPrep.Proofs.Pipeline.Run
import NetlistPrep.Proofs.Recovery.Again

/-!
# What recovery writes and reports

Recovery writes two texts behind a line, `fingerPart` and `rectanglePart`, and both are found in the
line as it was: what the first one writes is no attribute of the second. `geometry_appends` is the
whole of it, for a line and for all lines of a netlist.
-/

namespace NetlistPrep.Recovery

open Attribute

/-- What is written behind a line that gives width and length. -/
def fingerPart (line : Text) : Text :=
  match value? ['w'] line, value? ['l'] line with
  | some w, some _ =>
    " fw=".toList ++ Quantity.write (fingerWidth w (value? "fingers".toList line))
  | _, _ => []

/-- What is written behind a line that gives the area and the perimeter of a rectangle. -/
def rectanglePart (line : Text) : Text :=
  match value? "area".toList line, value? ['p', 'j'] line with
  | some area, some perimeter =>
    match Rectangle.solve? area perimeter with
    | some r => " w=".toList ++ Quantity.write r.width ++ " l=".toList ++ Quantity.write r.length
    | none => []
  | _, _ => []

theorem fingerPart_eq (line : Text) :
    ((finger? line).map fingerText).getD [] = fingerPart line := by
  unfold finger? fingerPart
  cases value? ['w'] line with
  | none => rfl
  | some w => cases value? ['l'] line <;> rfl

theorem rectanglePart_eq (line : Text) :
    ((rectangle? line).map rectangleText).getD [] = rectanglePart line := by
  unfold rectangle? outline? rectanglePart
  cases value? "area".toList line with
  | none => rfl
  | some area =>
    cases value? ['p', 'j'] line with
    | none => rfl
    | some perimeter =>
      simp only [Option.bind_some]
      cases Rectangle.solve? area perimeter <;> rfl

/-- **Recovery writes two parts behind a line,** each found in the line alone. -/
theorem text_ofLine_eq_parts (line : Text) :
    (ofLine line).text = line ++ fingerPart line ++ rectanglePart line := by
  rw [← fingerPart_eq, ← rectanglePart_eq, text_ofLine, fields, finger_ofLine, rectangle_ofLine,
    List.append_assoc, List.flatMap_append]
  congr 2
  · cases finger? line <;> simp [fingerText_eq]
  · cases rectangle? line <;> simp [rectangleText_eq]

/-- **A line is skipped where it gives an area and a perimeter that no rectangle has.** -/
theorem unsolved_ofLine_eq_some_iff (line : Text) (u : Unsolved) :
    (ofLine line).unsolved = some u ↔
      value? "area".toList line = some u.area ∧ value? ['p', 'j'] line = some u.perimeter ∧
        Rectangle.solve? u.area u.perimeter = none := by
  obtain ⟨area, perimeter⟩ := u
  simp only [ofLine, outline?_widened]
  unfold outline?
  cases value? "area".toList line with
  | none => simp
  | some area' =>
    cases value? ['p', 'j'] line with
    | none => simp
    | some perimeter' =>
      simp only [Option.some.injEq]
      cases hsolve : Rectangle.solve? area' perimeter' with
      | none =>
        simp only [Option.some.injEq, Unsolved.mk.injEq]
        constructor
        · rintro ⟨rfl, rfl⟩
          exact ⟨rfl, rfl, hsolve⟩
        · rintro ⟨rfl, rfl, -⟩
          exact ⟨rfl, rfl⟩
      | some r =>
        constructor
        · intro h
          simp at h
        · rintro ⟨rfl, rfl, hnone⟩
          rw [hsolve] at hnone
          simp at hnone

end NetlistPrep.Recovery

namespace NetlistPrep.Pass

open Recovery

/-- A line is in the list of lines without a rectangle under its number. -/
theorem mem_unsolved_iff {n : Netlist} {i : Nat} {r : Recovery} {u : Unsolved} :
    (i, r, u) ∈ unsolved n ↔ ∃ line, 1 ≤ i ∧ n.texts[i - 1]? = some line ∧ r = ofLine line ∧
      r.unsolved = some u := by
  simp only [unsolved, List.mem_filterMap, List.mem_zipIdx_iff_getElem?, Option.map_eq_some_iff,
    Prod.mk.injEq]
  constructor
  · rintro ⟨⟨line, k⟩, hline, u', hu, rfl, rfl, rfl⟩
    exact ⟨line, Nat.le_add_left 1 k, hline, rfl, hu⟩
  · rintro ⟨line, hi, hline, rfl, hu⟩
    exact ⟨(line, i - 1), hline, u, hu, Nat.sub_add_cancel hi, rfl, rfl⟩

/-- The lines without a rectangle are listed in their order. -/
theorem pairwise_unsolved (n : Netlist) : (unsolved n).Pairwise fun x y => x.1 < y.1 := by
  have hordered : n.texts.zipIdx.Pairwise fun x y => x.2 < y.2 := by
    rw [← List.pairwise_map, List.zipIdx_map_snd]
    exact List.pairwise_lt_range'
  refine List.Pairwise.filterMap _ ?_ hordered
  intro x y hlt a ha b hb
  obtain ⟨u, -, rfl⟩ := Option.map_eq_some_iff.1 ha
  obtain ⟨v, -, rfl⟩ := Option.map_eq_some_iff.1 hb
  exact Nat.succ_lt_succ hlt

/-- **Geometry recovery only appends, and it warns of the lines that it skips.** -/
theorem geometry_appends :
    (∀ line, (ofLine line).text = line ++ fingerPart line ++ rectanglePart line ∧
      (∀ u, (ofLine line).unsolved = some u ↔ Attribute.value? "area".toList line = some u.area ∧
        Attribute.value? ['p', 'j'] line = some u.perimeter ∧
        Rectangle.solve? u.area u.perimeter = none) ∧
      ((ofLine line).changed = true ↔ (ofLine line).text ≠ line)) ∧
    ∀ n : Netlist, ∃ report, Pass.geometry.run n = .ok report ∧
      report.netlist.texts = n.texts.map (fun line => (ofLine line).text) ∧
      List.Forall₂ (· <+: ·) n.texts report.netlist.texts ∧
      ∃ skipped : List (Nat × Unsolved),
        report.warnings = skipped.map (fun x =>
          "line ".toList ++ Text.ofNat x.1 ++ ": ".toList ++ x.2.message) ∧
        skipped.Pairwise (fun x y => x.1 < y.1) ∧
        ∀ i u, (i, u) ∈ skipped ↔
          ∃ line, 1 ≤ i ∧ n.texts[i - 1]? = some line ∧ (ofLine line).unsolved = some u := by
  constructor
  · intro line
    refine ⟨text_ofLine_eq_parts line, unsolved_ofLine_eq_some_iff line, ?_⟩
    rw [Ne, text_ofLine_eq_self_iff, Bool.not_eq_false]
  · intro n
    obtain ⟨augmented, htexts, hanswer⟩ := Pipeline.work_geometry n
    have hwork : Pass.geometry.work n = ((Pass.geometry.work n).1, .ok (.geometry augmented)) :=
      Prod.ext rfl hanswer
    have hrun : ∃ report, Pass.geometry.run n = .ok report ∧
        report.netlist = (Pass.geometry.work n).1 ∧
        report.warnings = Pass.geometry.warnings n (.geometry augmented) := by
      rw [Pass.run, hwork]
      exact ⟨_, rfl, rfl, rfl⟩
    obtain ⟨report, hrun, hnetlist, hwarnings⟩ := hrun
    rw [← hnetlist] at htexts
    refine ⟨report, hrun, htexts, ?_, (unsolved n).map fun x => (x.1, x.2.2), ?_, ?_, ?_⟩
    · rw [htexts, List.forall₂_map_right_iff]
      exact List.forall₂_same.2 fun line _ => line_prefix_text line
    · rw [hwarnings, List.map_map]
      rfl
    · exact List.pairwise_map.2 (pairwise_unsolved n)
    · intro i u
      rw [List.mem_map]
      constructor
      · rintro ⟨⟨k, r, v⟩, hmem, heq⟩
        obtain ⟨rfl, rfl⟩ := Prod.mk.inj heq
        obtain ⟨line, hi, hline, rfl, hu⟩ := mem_unsolved_iff.1 hmem
        exact ⟨line, hi, hline, hu⟩
      · rintro ⟨line, hi, hline, hu⟩
        exact ⟨(i, ofLine line, u), mem_unsolved_iff.2 ⟨line, hi, hline, rfl, hu⟩, rfl⟩

end NetlistPrep.Pass
