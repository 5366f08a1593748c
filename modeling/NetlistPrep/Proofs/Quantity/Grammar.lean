import NetlistPrep.Proofs.Decimal.Pattern
import NetlistPrep.Proofs.Quantity.Sign

/-!
# What quantities are read

A quantity is read by a pattern, and the text of its numeral is turned into a number after that.
Both always go well, and what is read is the quantity that the scanner reads (`parse_eq`).
`parse_grammar` says what that is: the longest numeral behind the blanks, times what its unit stands
for.
-/

namespace NetlistPrep.Quantity

open Pattern

/-! ## The pattern -/

/-- No numeral begins with a blank. -/
theorem scan?_cons_blank {c : Char} (hc : Text.isBlank c = true) (r : Text) :
    Numeral.scan? Text.isDigit (c :: r) = none := by
  rw [Numeral.scan?_eq_none_iff Numeral.reads_isDigit]
  intro hbegins
  obtain ⟨c', hc', hfirst⟩ := hbegins.head?
  obtain rfl : c = c' := by simpa using hc'
  rcases hfirst with hmark | hdigit
  · have hmarks : ∀ c ∈ ['+', '-', '.'], ¬ Text.isBlank c = true := List.any_eq_false.1 (by decide)
    exact hmarks c hmark hc
  · rw [Text.not_isBlank_of_isDigit hdigit] at hc
    exact Bool.false_ne_true hc

/-- The numeral and the unit where they begin. -/
theorem first?_scaledPattern (last : Option Char) (t : Text) :
    scaledPattern.first? last t =
      (Numeral.scan? Text.isDigit t).map fun found =>
        let unit := longest (fun c => !Text.isBlank c) found.2
        ⟨found.1.text ++ unit.text, [found.1.text, unit.text], unit.rest⟩ := by
  have htotal : ∀ last t,
      ((group (many fun c => !Text.isBlank c)).first? last t).isSome = true := by
    intro last t
    rw [first?_group, first?_many]
    rfl
  rw [scaledPattern, first?_seq_of_total htotal, first?_group,
    Numeral.first?_pattern Numeral.reads_isDigit]
  cases Numeral.scan? Text.isDigit t with
  | none => rfl
  | some found =>
    simp only [Option.map_some, Option.bind_some, behind, first?_group, first?_many]
    rfl

/-- **The pattern takes the numeral and the unit** that the scanner takes. -/
theorem groups_pattern (t : Text) : (pattern.match? t).map (·.groups) =
    (scan? t).map fun found => [found.1.text, found.2] := by
  -- Blanks that are given back leave a blank where the numeral is to begin.
  have hblanks : ∀ last last' s,
      scaledPattern.first? last' (s.dropWhile Text.isBlank) = none →
      scaledPattern.first? last s = none := by
    intro last last' s hnone
    simp only [first?_scaledPattern, Option.map_eq_none_iff] at hnone ⊢
    cases s with
    | nil => exact hnone
    | cons c r =>
      cases hc : Text.isBlank c with
      | true => exact scan?_cons_blank hc r
      | false => rwa [List.dropWhile_cons_of_neg (by simp [hc])] at hnone
  rw [match?, pattern, first?_seq_many hblanks, behind, first?_scaledPattern, scan?, Text.dropBlanks,
    longest]
  cases Numeral.scan? Text.isDigit (t.dropWhile Text.isBlank) with
  | none => rfl
  | some found => rfl

theorem convert_text_of_scan? {t rest : Text} {n : Numeral}
    (h : Numeral.scan? Text.isDigit t = some (n, rest)) :
    Numeral.convert n.text = .ok n.value := by
  rw [Numeral.convert, Numeral.scan?_text_of_scan? Numeral.reads_isDigit h]

/-- **Every text is read, and the pattern reads what the scanner reads.** -/
theorem parse_eq (t : Text) : parse t = .ok (read t) := by
  rw [parse, groups_pattern, read]
  cases hscan : scan? t with
  | none => rfl
  | some found =>
    obtain ⟨numeral, hnumeral, rfl⟩ := Option.map_eq_some_iff.1 hscan
    simp only [Option.map_some, convert_text_of_scan? hnumeral, scale]
    cases multiplier? (numeral.2.takeWhile fun c => !Text.isBlank c) with
    | none => rfl
    | some m => rfl

/-! ## The grammar -/

/-- What a text of a quantity is: the longest numeral that begins behind the blanks, the unit up to
the next blank, and the number that both together stand for. -/
structure IsReading (t : Text) (n : Numeral) (unit : Text) (x : Float) : Prop where
  parts : ∃ rest, Text.dropBlanks t = n.text ++ (unit ++ rest) ∧
    IsRow (fun c => !Text.isBlank c) unit rest
  formed : n.IsFormed Text.isDigit
  longest : ∀ n' : Numeral, n'.IsFormed Text.isDigit → n'.text <+: Text.dropBlanks t →
    n'.text.length ≤ n.text.length
  metric : ∀ m, (unit, m) ∈ units → x = n.value * m
  other : unit ∉ units.map (·.1) → x = n.value

theorem isReading_of_scan? {t unit : Text} {n : Numeral} (h : scan? t = some (n, unit)) :
    IsReading t n unit (scale n unit) := by
  obtain ⟨⟨n', rest⟩, hscan, heq⟩ := Option.map_eq_some_iff.1 h
  obtain ⟨rfl, rfl⟩ := Prod.mk.inj heq
  refine ⟨⟨rest.dropWhile fun c => !Text.isBlank c, ?_, isRow_takeWhile _ rest⟩,
    Numeral.isFormed_of_scan? hscan,
    fun _ => Numeral.length_text_le_of_scan? Numeral.reads_isDigit hscan, ?_, ?_⟩
  · rw [List.takeWhile_append_dropWhile, Numeral.text_append_of_scan? hscan]
  · intro m hm
    simp only [scale, multiplier?_of_mem_units hm]
  · intro hother
    have hnone : multiplier? (rest.takeWhile fun c => !Text.isBlank c) = none := by
      refine List.lookup_eq_none_iff.2 fun unit hunit => ?_
      refine bne_iff_ne.2 fun heq => hother ?_
      rw [heq]
      exact List.mem_map_of_mem hunit
    simp only [scale, hnone]

/-- **Every text is read by the grammar of quantities.** It is read as no number if and only if
there is no digit behind the blanks, a sign and a point, which may all be missing. -/
theorem parse_grammar (t : Text) : parse t = .ok (read t) ∧
    ((read t).isNaN = true ↔ ¬ Numeral.Begins Text.isDigit (Text.dropBlanks t)) ∧
    (Numeral.Begins Text.isDigit (Text.dropBlanks t) → ∃ n unit, IsReading t n unit (read t)) := by
  have hbegins := @Numeral.scan?_eq_none_iff _ (Text.dropBlanks t) Numeral.reads_isDigit
  refine ⟨parse_eq t, ?_, ?_⟩
  · rw [isNaN_read_iff, scan?, Option.map_eq_none_iff, hbegins]
  · intro h
    have hsome : Numeral.scan? Text.isDigit (Text.dropBlanks t) ≠ none := fun hnone =>
      hbegins.1 hnone h
    obtain ⟨⟨n, rest⟩, hscan⟩ := Option.ne_none_iff_exists'.1 hsome
    have hread : scan? t = some (n, rest.takeWhile fun c => !Text.isBlank c) := by
      rw [scan?, hscan]
      rfl
    have hvalue : read t = scale n (rest.takeWhile fun c => !Text.isBlank c) := by
      rw [read, hread]
    rw [hvalue]
    exact ⟨n, _, isReading_of_scan? hread⟩

/-- An exponent without a digit belongs to the unit. -/
theorem parse_grammar_half_exponent :
    Numeral.Begins Text.isDigit (Text.dropBlanks " -1.e+k".toList) ∧
    ∃ n unit, IsReading " -1.e+k".toList n unit (read " -1.e+k".toList) := by
  have hbegins : Numeral.Begins Text.isDigit (Text.dropBlanks " -1.e+k".toList) :=
    ⟨some '-', false, '1', ".e+k".toList, by simp, by decide, by decide +kernel⟩
  exact ⟨hbegins, (parse_grammar _).2.2 hbegins⟩

example : scan? " -1.e+k".toList = some (⟨some '-', ['1'], true, [], none⟩, "e+k".toList) := by
  decide

end NetlistPrep.Quantity
