import NetlistPrep.Netlist

/-!
# Rewriting line by line

Work on a netlist that may stop in the middle leaves the netlist as far as it got, next to its
answer (`Edited`). `Netlist.rewrite` puts a function of its text in the place of every line and
stops at the first new text that is no line; where there is none of those it is a plain `map`
(`rewrite_eq_ok`).
-/

namespace NetlistPrep

/-- What work on a netlist leaves: the netlist as it stands, and the answer or the fault that ended
the work. -/
abbrev Edited (α : Type) := Netlist × Except Fault α

namespace Netlist

/-- Rewrites lines and counts those that changed. -/
def rewriteLines (f : Text → Text) : List Line → List Line × Except Fault Nat
  | [] => ([], .ok 0)
  | l :: rest =>
    if f l.text = l.text then
      let r := rewriteLines f rest
      (l :: r.1, r.2)
    else match Line.ofText (f l.text) with
      | .error fault => (l :: rest, .error fault)
      | .ok l' =>
        let r := rewriteLines f rest
        (l' :: r.1, r.2.map (· + 1))

/-- Rewrites every line by a function of its text and counts the lines that changed. -/
def rewrite (f : Text → Text) (n : Netlist) : Edited Nat :=
  let r := rewriteLines f n.lines
  (⟨r.1⟩, r.2)

theorem rewriteLines_eq_ok {f : Text → Text} {lines : List Line}
    (h : ∀ l ∈ lines, '\n' ∉ f l.text) :
    (rewriteLines f lines).1.map (·.text) = lines.map (fun l => f l.text) ∧
      (rewriteLines f lines).2 = .ok (lines.countP fun l => f l.text ≠ l.text) := by
  induction lines with
  | nil => simp [rewriteLines]
  | cons l rest ih =>
    have ih := ih fun l hl => h l (List.mem_cons_of_mem _ hl)
    have hl : '\n' ∉ f l.text := h l List.mem_cons_self
    by_cases he : f l.text = l.text
    · simp [rewriteLines, he, ih]
    · simp [rewriteLines, he, ih, Line.ofText, hl, Except.map]

/-- **Where every new text is a line, rewriting is `map`,** and the lines that changed are counted.
-/
theorem rewrite_eq_ok {f : Text → Text} {n : Netlist} (h : ∀ t ∈ n.texts, '\n' ∉ f t) :
    (n.rewrite f).1.texts = n.texts.map f ∧
      (n.rewrite f).2 = .ok (n.texts.countP fun t => f t ≠ t) := by
  have := @rewriteLines_eq_ok f n.lines fun l hl => h _ (List.mem_map_of_mem hl)
  simpa [rewrite, texts, List.countP_map, Function.comp_def] using this

end Netlist

end NetlistPrep
