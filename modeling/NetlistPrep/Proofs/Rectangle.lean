import NetlistPrep.Proofs.Arithmetic
import NetlistPrep.Proofs.Double.Underflow

/-!
# Rectangles from any two doubles

What solving does for every area and perimeter, numbers or not.

* `Rectangle.solveInSteps` solves with every guard and with arithmetic that may be refused;
  `solveInSteps_eq` says that nothing is refused and that the guard on both roots is no more than
  the missing candidates.
* `Rectangle.isFinite_of_pos` says that two positive roots are those of a finite area, so that both
  candidates can be compared.
* `Rectangle.solve?_safe_and_chosen` puts together when there is a solution and which one it is.
* `Rectangle.solve?_width_nonneg_iff` says which solutions have a width that is not below zero. Only
  the lengths are checked for being positive, so that a negative area may have a solution, too.
-/

namespace NetlistPrep.Rectangle

open Arithmetic Double Float.Model UnpackedFloat

/-! ## In steps -/

/-- The candidate that is taken: the first one, unless it is shorter than wide and there is
another. -/
def choose : List Rectangle → Option Rectangle
  | [] => none
  | [only] => some only
  | first :: second :: _ => some (if first.length < first.width then second else first)

/-- Solving with all guards, in arithmetic that may be refused. -/
def solveInSteps (area pj : Float) : Except Undefined (Option Rectangle) := do
  let half ← divide pj 2
  let delta := half * half - 4 * area
  if delta < 0 then return none
  let side ← root delta
  let l1 ← divide (half + side) 2
  let l2 ← divide (half - side) 2
  if l1 ≤ 0 ∧ l2 ≤ 0 then return none
  return choose (← ([l1, l2].filter fun l => 0 < l).mapM (ofLengthDefined area))

theorem solve?_eq (area pj : Float) : solve? area pj =
    (roots? area (pj / 2)).bind fun l =>
      choose (([l.1, l.2].filter fun l => 0 < l).map (ofLength area)) := by
  unfold solve?
  cases roots? area (pj / 2) with
  | none => rfl
  | some l =>
    obtain ⟨l1, l2⟩ := l
    simp only [Option.bind_some]
    generalize ([l1, l2].filter fun l => 0 < l).map (ofLength area) = candidates
    rcases candidates with _ | ⟨first, _ | ⟨second, rest⟩⟩ <;> rfl

/-- **Nothing is refused,** whatever the area and the perimeter are. -/
theorem solveInSteps_eq (area pj : Float) : solveInSteps area pj = .ok (solve? area pj) := by
  rw [solveInSteps, divide_two, Outcome.ok_bind, solve?_eq, roots?]
  by_cases hdelta : pj / 2 * (pj / 2) - 4 * area < 0
  · simp only [hdelta, if_true, Option.bind_none]
    rfl
  · simp only [hdelta, if_false, root_eq_of_not_neg hdelta, divide_two, Outcome.ok_bind,
      Option.bind_some]
    generalize (pj / 2 + (pj / 2 * (pj / 2) - 4 * area).sqrt) / 2 = l1
    generalize (pj / 2 - (pj / 2 * (pj / 2) - 4 * area).sqrt) / 2 = l2
    have hpositive : ∀ l ∈ [l1, l2].filter fun l => 0 < l, 0 < l :=
      fun l hl => by simpa using (List.mem_filter.1 hl).2
    rw [mapM_ofLengthDefined_eq area hpositive]
    by_cases hguard : l1 ≤ 0 ∧ l2 ≤ 0
    · have hnone : ([l1, l2].filter fun l => 0 < l) = [] := by
        simp [not_lt_of_le hguard.1, not_lt_of_le hguard.2]
      rw [if_pos hguard, hnone]
      rfl
    · rw [if_neg hguard]
      rfl

/-! ## Areas that are not finite -/

/-- **Only a finite area has two positive roots.** An area that is not finite makes the root of the
discriminant boundless, and that leaves no smaller root. -/
theorem isFinite_of_pos {area half : Float}
    (h : 0 < (half - (half * half - 4 * area).sqrt) / 2) : area.isFinite = true := by
  rw [← Bool.not_eq_false]
  intro harea
  obtain ⟨m, e, hm, hfour, -⟩ :=
    (show IsNormal (4 : Float).toModel.unpack by decide +kernel).exists_eq
  have hdelta := not_isFinite_sub (half * half) (not_isFinite_mul hfour harea)
  exact not_pos_of_isBoundless (isBoundless_half (isBoundless_sub half (isBoundless_sqrt hdelta))) h

/-! ## Which candidate is taken -/

/-- A rectangle whose length is one of two roots, a positive one. It is no shorter than wide if a
positive root is no shorter than the width it gives. -/
structure IsChosen (area l1 l2 : Float) (r : Rectangle) : Prop where
  pos : 0 < r.length
  root : r.length = l1 ∨ r.length = l2
  width : r.width = area / r.length
  long : (∃ l ∈ [l1, l2], 0 < l ∧ area / l ≤ l) → r.width ≤ r.length

variable {area l1 l2 : Float}

theorem isChosen_of_only {l : Float} (hl : 0 < l) (hroot : l = l1 ∨ l = l2)
    (honly : ∀ l' ∈ [l1, l2], 0 < l' → l' = l) : IsChosen area l1 l2 (ofLength area l) where
  pos := hl
  root := hroot
  width := rfl
  long := by
    rintro ⟨l', hmem, hl', hlong⟩
    rwa [honly l' hmem hl'] at hlong

theorem isChosen_of_both (h1 : 0 < l1) (h2 : 0 < l2) (hnumber : (area / l1).isNaN = false) :
    IsChosen area l1 l2 (if l1 < area / l1 then ofLength area l2 else ofLength area l1) := by
  by_cases hshort : l1 < area / l1
  · rw [if_pos hshort]
    refine ⟨h2, .inr rfl, rfl, ?_⟩
    rintro ⟨l, hmem, -, hlong⟩
    rcases List.mem_pair.1 hmem with rfl | rfl
    · exact absurd hshort (not_lt_of_le hlong)
    · exact hlong
  · rw [if_neg hshort]
    exact ⟨h1, .inl rfl, rfl, fun _ => le_of_not_lt (not_isNaN_of_lt h1).2 hnumber hshort⟩

/-- The candidates of two roots, and the one that is taken. -/
theorem choose_cases (hfinite : 0 < l2 → area.isFinite = true) :
    (choose (([l1, l2].filter fun l => 0 < l).map (ofLength area)) = none ↔
      ¬ 0 < l1 ∧ ¬ 0 < l2) ∧
    ∀ r, choose (([l1, l2].filter fun l => 0 < l).map (ofLength area)) = some r →
      IsChosen area l1 l2 r := by
  by_cases h1 : 0 < l1 <;> by_cases h2 : 0 < l2
  · have hchosen := isChosen_of_both h1 h2 (not_isNaN_div (hfinite h2) h1)
    simpa [h1, h2, choose, ofLength] using hchosen
  · have hchosen : IsChosen area l1 l2 (ofLength area l1) :=
      isChosen_of_only h1 (.inl rfl) (by simp [h2])
    simpa [h1, h2, choose] using hchosen
  · have hchosen : IsChosen area l1 l2 (ofLength area l2) :=
      isChosen_of_only h2 (.inr rfl) (by simp [h1])
    simpa [h1, h2, choose] using hchosen
  · simp [h1, h2, choose]

/-- The discriminant of `x² - half · x + area`. -/
def discriminant (area half : Float) : Float := half * half - 4 * area

/-- The larger root of `x² - half · x + area`, no number where there is none. -/
def largerRoot (area half : Float) : Float := (half + (discriminant area half).sqrt) / 2

/-- The smaller root of `x² - half · x + area`, no number where there is none. -/
def smallerRoot (area half : Float) : Float := (half - (discriminant area half).sqrt) / 2

/-- **Solving is safe for every two doubles.** No root of a negative number is taken and nothing is
divided by zero. There is a solution unless the discriminant is negative or no root is positive, and
the solution is one of a positive root, the one that is no shorter than wide if there is one. -/
theorem solve?_safe_and_chosen (area pj : Float) :
    solveInSteps area pj = .ok (solve? area pj) ∧
    (solve? area pj = none ↔ discriminant area (pj / 2) < 0 ∨
      (¬ 0 < largerRoot area (pj / 2) ∧ ¬ 0 < smallerRoot area (pj / 2))) ∧
    ∀ r, solve? area pj = some r →
      IsChosen area (largerRoot area (pj / 2)) (smallerRoot area (pj / 2)) r := by
  have hfinite : 0 < smallerRoot area (pj / 2) → area.isFinite = true := isFinite_of_pos
  obtain ⟨hnone, hsome⟩ :=
    @choose_cases area (largerRoot area (pj / 2)) (smallerRoot area (pj / 2)) hfinite
  refine ⟨solveInSteps_eq area pj, ?_⟩
  rw [solve?_eq]
  by_cases hdelta : discriminant area (pj / 2) < 0
  · have hroots : roots? area (pj / 2) = none := if_pos hdelta
    simp [hroots, hdelta]
  · have hroots : roots? area (pj / 2) =
        some (largerRoot area (pj / 2), smallerRoot area (pj / 2)) := if_neg hdelta
    rw [hroots, Option.bind_some]
    exact ⟨hnone.trans (by simp [hdelta]), hsome⟩

/-! ## The sign of the width -/

variable {pj : Float} {r : Rectangle}

/-- **The width has the sign of the area.** The length of a solution is positive. The width for a
finite area is not below zero if and only if the area is not, or the width vanishes: the length is
infinite, or the exact quotient is no more than half the least size. -/
theorem solve?_width_nonneg_iff (harea : area.isFinite = true) (hr : solve? area pj = some r) :
    0 < r.length ∧
    (0 ≤ r.width ↔
      0 ≤ area ∨ r.length.isFinite = false ∨ size area ≤ leastSize / 2 * size r.length) := by
  have hchosen := (solve?_safe_and_chosen area pj).2.2 r hr
  refine ⟨hchosen.pos, ?_⟩
  rw [hchosen.width, zero_le_iff (not_isNaN_div harea hchosen.pos),
    div_lt_zero_iff harea hchosen.pos, zero_le_iff (not_isNaN_of_isFinite harea), ← not_lt,
    ← Bool.not_eq_true r.length.isFinite]
  tauto

/-- The negative area next to zero: its quotient by a length of four vanishes. -/
theorem solve?_width_nonneg_vanishing :
    ∃ r, solve? (-5e-324) 8 = some r ∧ (-5e-324 : Float) < 0 ∧ 0 < r.length ∧ 0 ≤ r.width := by
  have hany : (solve? (-5e-324) 8).any (fun r => decide (r.length = 4)) = true := by decide +kernel
  obtain ⟨r, hr, hlength⟩ := (Option.any_eq_true _ _).1 hany
  obtain ⟨hpos, hwidth⟩ := solve?_width_nonneg_iff (by decide +kernel) hr
  have hsmall : size (-5e-324) ≤ leastSize / 2 * size 4 := by decide +kernel
  refine ⟨r, hr, by decide +kernel, hpos, hwidth.2 (.inr (.inr ?_))⟩
  rwa [of_decide_eq_true hlength]

/-- A negative area with a perimeter of three: the length of two is a positive root, and the width
that goes with it is below zero. -/
theorem solve?_negative_width :
    Float.isFinite (-1) = true ∧ Float.isFinite 3 = true ∧
      ∃ r, solve? (-1) 3 = some r ∧ 0 < r.length ∧ ¬ 0 ≤ r.width := by
  have hany : (solve? (-1) 3).any (fun r => decide (0 < r.length ∧ ¬ 0 ≤ r.width)) = true := by
    decide +kernel
  obtain ⟨r, hr, hwidth⟩ := (Option.any_eq_true _ _).1 hany
  exact ⟨by decide +kernel, by decide +kernel, r, hr, of_decide_eq_true hwidth⟩

end NetlistPrep.Rectangle
