import NetlistPrep.Fault

/-!
# Outcomes

What a step that may fault has to do for the whole to succeed.
-/

namespace NetlistPrep.Outcome

variable {ε α β : Type} {x : Except ε α} {b : β}

theorem ok_bind (a : α) (f : α → Except ε β) : Except.ok a >>= f = f a := rfl

theorem map_eq_ok_iff {f : α → β} : x.map f = .ok b ↔ ∃ a, x = .ok a ∧ f a = b := by
  cases x <;> simp [Except.map]

/-- Whether there is an answer does not depend on what is made of it. -/
theorem map_map_unit (x : Except ε α) (f : α → β) :
    (x.map f).map (fun _ => ()) = x.map fun _ => () := by
  cases x <;> rfl

theorem bind_eq_ok_iff {f : α → Except ε β} :
    x >>= f = .ok b ↔ ∃ a, x = .ok a ∧ f a = .ok b := by
  cases x <;> simp [bind, Except.bind]

end NetlistPrep.Outcome
