import NetlistPrep.Fault
import NetlistPrep.Json

/-!
# Netlist lines

A line is a text without a line feed. Every line of a netlist comes through `Line.ofText` or
`Line.ofJson`, which refuse anything else.
-/

namespace NetlistPrep

/-- One line of a netlist. -/
structure Line where
  text : Text
  noLineFeed : '\n' ∉ text
deriving DecidableEq, Repr

namespace Line

theorem ext_text {a b : Line} (h : a.text = b.text) : a = b := by
  cases a; cases b; simp_all

def ofText (t : Text) : Except Fault Line :=
  if h : '\n' ∈ t then .error (.lineFeed t) else .ok ⟨t, h⟩

/-- Takes plain data as a line. -/
def ofJson : Json → Except Fault Line
  | .str t => ofText t
  | v => .error (.lineKind v.kind)

theorem ofText_eq_ok_iff {t : Text} {l : Line} : ofText t = .ok l ↔ l.text = t := by
  unfold ofText
  constructor
  · intro h
    split at h
    · simp at h
    · obtain rfl := Except.ok.inj h
      rfl
  · rintro rfl
    simp [l.noLineFeed]

theorem ofText_eq_error {t : Text} (h : '\n' ∈ t) : ofText t = .error (.lineFeed t) := by
  simp [ofText, h]

end Line

end NetlistPrep
