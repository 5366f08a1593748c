import NetlistPrep.Text

/-!
# Paths

A path in normal form: where it starts, and the names on the way. Empty names and single dots say
nothing and are left out; two dots are kept, because they lead back only once the way is walked.
Exactly two slashes in front differ from one, three or more do not.
-/

namespace NetlistPrep

/-- Where a path starts: here, at the root, or at the root that two slashes mean. -/
inductive Anchor
  | relative
  | root
  | doubleRoot
deriving DecidableEq, Repr

namespace Anchor

/-- The anchor that the slashes in front of a text mean. -/
def ofText (t : Text) : Anchor :=
  match (t.takeWhile (· == '/')).length with
  | 0 => .relative
  | 2 => .doubleRoot
  | _ => .root

def text : Anchor → Text
  | .relative => []
  | .root => ['/']
  | .doubleRoot => ['/', '/']

end Anchor

structure Path where
  anchor : Anchor
  names : List Text
  plain : ∀ name ∈ names, name ≠ [] ∧ name ≠ ['.'] ∧ '/' ∉ name
deriving DecidableEq, Repr

namespace Path

def ofText (t : Text) : Path where
  anchor := Anchor.ofText t
  names := (Text.split (· == '/') t).filter fun name => name ≠ [] ∧ name ≠ ['.']
  plain := by
    intro name h
    obtain ⟨hs, hn⟩ := List.mem_filter.1 h
    simp only [decide_eq_true_eq] at hn
    exact ⟨hn.1, hn.2, fun hc => by simpa using Text.not_sep_of_mem_split hs _ hc⟩

/-- The text of a path; the path without names is a single dot. -/
def text (p : Path) : Text :=
  match p.anchor.text ++ ['/'].intercalate p.names with
  | [] => ['.']
  | t => t

end Path

end NetlistPrep
