import NetlistPrep.Quantity
import NetlistPrep.Text.Letter

/-!
# The figures of a quantity

A quantity is written in letters, digits, points and signs and in nothing else
(`isFigure_of_mem_write`), so it is one word and holds neither an equals sign nor a line end.
-/

namespace NetlistPrep

/-- A character of a written quantity: a letter, a digit, a point or a sign. -/
def isFigure (c : Char) : Bool := Text.isNameChar c || c == '.' || c == '+' || c == '-'

theorem isFigure_of_isDigit {c : Char} (h : c.isDigit = true) : isFigure c = true := by
  have : Text.isAsciiDigit c = true := by
    simpa [Text.isAsciiDigit, Char.isDigit, Char.le_def] using h
  simp [isFigure, Text.isNameChar, this]

theorem isFigure_of_mem_toDigits {n : Nat} {c : Char} (h : c ∈ Nat.toDigits 10 n) :
    isFigure c = true :=
  isFigure_of_isDigit (Nat.isDigit_of_mem_toDigits (by decide) (by decide) h)

theorem isFigure_of_mem_round {count num den : Nat} {c : Char}
    (h : c ∈ (Digits.round count num den).digits) : isFigure c = true := by
  simp only [Digits.round, Digits.ofUnits] at h
  split at h
  · rw [List.mem_singleton.1 h]
    decide
  · rw [Text.dropEnd, List.mem_reverse] at h
    exact isFigure_of_mem_toDigits (List.mem_reverse.1 ((List.dropWhile_sublist _).subset h))

namespace Style

theorem isFigure_of_mem_exponentPart {e : Int} {c : Char} (h : c ∈ exponentPart e) :
    isFigure c = true := by
  rcases List.mem_cons.1 h with rfl | h
  · decide
  rcases List.mem_cons.1 h with rfl | h
  · split <;> decide
  split at h
  · rcases List.mem_cons.1 h with rfl | h
    · decide
    · exact isFigure_of_mem_toDigits h
  · exact isFigure_of_mem_toDigits h

theorem isFigure_of_mem_positional {s : Style} {d : Digits} {c : Char}
    (hd : ∀ c ∈ d.digits, isFigure c = true) (h : c ∈ s.positional d) : isFigure c = true := by
  have hzeros : ∀ n, c ∈ List.replicate n '0' → isFigure c = true := by
    intro n hc
    rw [List.eq_of_mem_replicate hc]
    decide
  have hpoint : isFigure '.' = true := by decide
  have hzero : isFigure '0' = true := by decide
  unfold positional at h
  split at h
  · simp only [List.cons_append, List.mem_cons, List.mem_append] at h
    rcases h with rfl | rfl | h | h
    · exact hzero
    · exact hpoint
    · exact hzeros _ h
    · exact hd c h
  · have hwhole : ∀ n m, c ∈ d.digits.take n ++ List.replicate m '0' → isFigure c = true := by
      intro n m hc
      rcases List.mem_append.1 hc with hc | hc
      · exact hd c (List.mem_of_mem_take hc)
      · exact hzeros _ hc
    simp only at h
    split at h
    · split at h
      · rcases List.mem_append.1 h with h | h
        · exact hwhole _ _ h
        · simp only [List.mem_cons, List.not_mem_nil, or_false] at h
          rcases h with rfl | rfl
          · exact hpoint
          · exact hzero
      · exact hwhole _ _ h
    · rcases List.mem_append.1 h with h | h
      · exact hwhole _ _ h
      · rcases List.mem_cons.1 h with rfl | h
        · exact hpoint
        · exact hd c (List.mem_of_mem_drop h)

theorem isFigure_of_mem_scientific {d : Digits} {c : Char}
    (hd : ∀ c ∈ d.digits, isFigure c = true) (h : c ∈ scientific d) : isFigure c = true := by
  have hpoint : isFigure '.' = true := by decide
  unfold scientific at h
  split at h
  · exact isFigure_of_mem_exponentPart h
  · rename_i first he
    rcases List.mem_cons.1 h with rfl | h
    · exact hd _ (by simp [he])
    · exact isFigure_of_mem_exponentPart h
  · rename_i first fraction _ he
    simp only [List.cons_append, List.mem_cons, List.mem_append] at h
    rcases h with rfl | rfl | h | h
    · exact hd _ (by simp [he])
    · exact hpoint
    · exact hd _ (by simp [he, h])
    · exact isFigure_of_mem_exponentPart h

theorem isFigure_of_mem_write {s : Style} {d : Digits} {c : Char}
    (hd : ∀ c ∈ d.digits, isFigure c = true) (h : c ∈ s.write d) : isFigure c = true := by
  unfold write at h
  split at h
  · exact isFigure_of_mem_positional hd h
  · exact isFigure_of_mem_scientific hd h

end Style

theorem isFigure_of_mem_general {x : Float} {c : Char} (h : c ∈ Decimal.general x) :
    isFigure c = true := by
  have hsigned : ∀ (negative : Bool) (t : Text), (∀ c ∈ t, isFigure c = true) →
      c ∈ (if negative then '-' :: t else t) → isFigure c = true := by
    intro negative t ht hc
    split at hc
    · rcases List.mem_cons.1 hc with rfl | hc
      · decide
      · exact ht c hc
    · exact ht c hc
  unfold Decimal.general Style.writeFloat at h
  simp only at h
  split at h
  · have hnan : ∀ c ∈ Style.general.nan, isFigure c = true := List.all_eq_true.1 (by decide)
    exact hnan c h
  · have hinfinity : ∀ c ∈ Style.general.infinity, isFigure c = true :=
      List.all_eq_true.1 (by decide)
    exact hsigned _ _ hinfinity h
  · split at h
    · refine hsigned _ _ (fun c hc => Style.isFigure_of_mem_write ?_ hc) h
      exact List.all_eq_true.1 (by decide)
    · refine hsigned _ _ (fun c hc => Style.isFigure_of_mem_write ?_ hc) h
      exact fun c hc => isFigure_of_mem_round hc

/-- **A quantity is written in figures.** -/
theorem isFigure_of_mem_write {x : Float} {c : Char} (h : c ∈ Quantity.write x) :
    isFigure c = true := by
  have hunits : ∀ u ∈ Quantity.units.map (·.1), ∀ c ∈ u, isFigure c = true := by
    have hall : (Quantity.units.map (·.1)).all (·.all isFigure) = true := by
      simp only [Quantity.units, List.map_cons, List.map_nil]
      decide
    exact fun u hu => List.all_eq_true.1 (List.all_eq_true.1 hall u hu)
  unfold Quantity.write at h
  split at h
  · rename_i unit divisor hu
    rcases List.mem_append.1 h with h | h
    · exact isFigure_of_mem_general h
    · have hmem := List.mem_reverse.1 (List.mem_of_find?_eq_some hu)
      exact hunits unit (List.mem_map_of_mem hmem) c h
  · exact isFigure_of_mem_general h

end NetlistPrep
