import NetlistPrep.Proofs.Text.Split

/-!
# Writings that show where they end

A writing is self-delimiting if two of its texts that are the same up to what follows them are
those of the same value, with the same text behind (`IsSelfDelimiting`). Such a writing can be read
back in front of anything, and so it can be built into larger ones:

* a pair with a character between its parts (`IsSelfDelimiting.pair`),
* a row up to a character that begins no item (`IsSelfDelimiting.flatMap`),
* a row with commas between brackets (`IsSelfDelimiting.row`).
-/

namespace NetlistPrep.Text

variable {α β : Type} {f : α → Text} {g : β → Text}

/-- What is written can be told from the text, whatever stands behind it. -/
def IsSelfDelimiting (f : α → Text) : Prop :=
  ∀ ⦃a b r s⦄, f a ++ r = f b ++ s → a = b ∧ r = s

namespace IsSelfDelimiting

/-- A writing with a reader that takes its texts off what stands behind them. -/
theorem of_reader {read : Text → Option (α × Text)} (h : ∀ a r, read (f a ++ r) = some (a, r)) :
    IsSelfDelimiting f := by
  intro a b r s heq
  have hread := congrArg read heq
  rw [h, h, Option.some_inj] at hread
  exact Prod.mk.inj hread

theorem injective (hf : IsSelfDelimiting f) {a b : α} : f a = f b ↔ a = b := by
  refine ⟨fun h => ?_, congrArg f⟩
  exact (hf (r := []) (s := []) (by rw [h])).1

theorem cons (hf : IsSelfDelimiting f) (c : Char) : IsSelfDelimiting fun a => c :: f a := by
  intro a b r s h
  exact hf (List.cons.inj h).2

/-- Two parts with a character between them. -/
theorem pair (hf : IsSelfDelimiting f) (hg : IsSelfDelimiting g) (c : Char) :
    IsSelfDelimiting fun p : α × β => f p.1 ++ c :: g p.2 := by
  rintro ⟨a, x⟩ ⟨b, y⟩ r s h
  simp only [List.append_assoc, List.cons_append] at h
  obtain ⟨rfl, hbehind⟩ := hf h
  obtain ⟨rfl, hrest⟩ := hg (List.cons.inj hbehind).2
  exact ⟨rfl, hrest⟩

/-- A row of items up to a character that no item begins with. -/
theorem flatMap (hf : IsSelfDelimiting f) {stop : Char}
    (hstop : ∀ a r s, f a ++ r ≠ stop :: s) :
    IsSelfDelimiting fun l : List α => l.flatMap f ++ [stop] := by
  intro l l' r s h
  simp only [List.append_assoc, List.singleton_append] at h
  induction l generalizing l' with
  | nil =>
    cases l' with
    | nil => exact ⟨rfl, (List.cons.inj h).2⟩
    | cons b l' =>
      rw [List.flatMap_cons, List.append_assoc] at h
      exact absurd h.symm (hstop b _ _)
  | cons a l ih =>
    rw [List.flatMap_cons, List.append_assoc] at h
    cases l' with
    | nil => exact absurd h (hstop a _ _)
    | cons b l' =>
      rw [List.flatMap_cons, List.append_assoc] at h
      obtain ⟨rfl, hbehind⟩ := hf h
      obtain ⟨rfl, hrest⟩ := ih hbehind
      exact ⟨rfl, hrest⟩

/-- A row of items with commas between them, inside of brackets. The closing one begins no item. -/
theorem row (hf : IsSelfDelimiting f) {start stop : Char} (hcomma : stop ≠ ',')
    (hstop : ∀ a r s, f a ++ r ≠ stop :: s) :
    IsSelfDelimiting fun l : List α => start :: [','].intercalate (l.map f) ++ [stop] := by
  have htail : IsSelfDelimiting fun l : List α => (l.flatMap fun a => ',' :: f a) ++ [stop] :=
    (hf.cons ',').flatMap fun a r s h => hcomma (List.cons.inj h).1.symm
  intro l l' r s h
  have hitems : [','].intercalate (l.map f) ++ stop :: r =
      [','].intercalate (l'.map f) ++ stop :: s := by simpa using h
  cases l with
  | nil =>
    cases l' with
    | nil => exact ⟨rfl, (List.cons.inj hitems).2⟩
    | cons b l' =>
      rw [List.map_cons, intercalate_cons_map, List.append_assoc] at hitems
      exact absurd hitems.symm (hstop b _ _)
  | cons a l =>
    rw [List.map_cons, intercalate_cons_map, List.append_assoc] at hitems
    cases l' with
    | nil => exact absurd hitems (hstop a _ _)
    | cons b l' =>
      rw [List.map_cons, intercalate_cons_map, List.append_assoc] at hitems
      obtain ⟨rfl, hbehind⟩ := hf hitems
      obtain ⟨rfl, hrest⟩ := htail (by simpa using hbehind)
      exact ⟨rfl, hrest⟩

end IsSelfDelimiting

end NetlistPrep.Text
