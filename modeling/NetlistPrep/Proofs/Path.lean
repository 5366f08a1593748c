import NetlistPrep.Path
import NetlistPrep.Proofs.Text.Split

/-!
# Paths and their texts

A path is in normal form by its type, and its text is one that means it (`ofText_text`). So a text
that was brought into normal form is in normal form.

The text of a path is that of its anchor and, behind it, the names with slashes between them. The
names do not begin with a slash (`head?_joined`), so the slashes in front are those of the anchor
and no more (`Anchor.ofText_text_append`), and they name nothing (`names_ofText_anchor_append`).
-/

namespace NetlistPrep

namespace Anchor

/-- Slashes in front of something else mean the anchor they are the text of. -/
theorem ofText_text_append {t : Text} (h : t.head? ≠ some '/') (a : Anchor) :
    ofText (a.text ++ t) = a := by
  have ht : t.takeWhile (· == '/') = [] := by
    cases t with
    | nil => rfl
    | cons c r => exact List.takeWhile_cons_of_neg (by simpa using h)
  cases a <;> simp [ofText, text, ht]

end Anchor

namespace Path

theorem ext_anchor_names {p q : Path} (ha : p.anchor = q.anchor) (hn : p.names = q.names) :
    p = q := by
  cases p
  cases q
  simp_all

/-- The names on the way, with slashes between them. -/
def joined (p : Path) : Text := ['/'].intercalate p.names

theorem head?_joined (p : Path) : p.joined.head? ≠ some '/' := by
  have hplain := p.plain
  unfold joined
  cases hnames : p.names with
  | nil => simp
  | cons name rest =>
    obtain ⟨hne, -, hslash⟩ := hplain name (by simp [hnames])
    obtain ⟨c, r, rfl⟩ := List.exists_cons_of_ne_nil hne
    rw [← List.map_id rest, Text.intercalate_cons_map]
    simpa using fun h : c = '/' => hslash (h ▸ List.mem_cons_self)

/-- The names are the pieces of the joined text that say something. -/
theorem filter_split_joined (p : Path) :
    (Text.split (· == '/') p.joined).filter (fun name => name ≠ [] ∧ name ≠ ['.']) = p.names := by
  by_cases hnames : p.names = []
  · rw [joined, hnames]
    rfl
  · rw [joined, Text.split_intercalate hnames fun name hn => (p.plain name hn).2.2,
      List.filter_eq_self]
    exact fun name hn => decide_eq_true ⟨(p.plain name hn).1, (p.plain name hn).2.1⟩

/-- A slash in front of a text names nothing. -/
theorem names_ofText_cons_slash (t : Text) : (ofText ('/' :: t)).names = (ofText t).names := by
  simp only [ofText]
  rw [Text.split_cons_sep, List.filter_cons_of_neg (by simp)]

theorem names_ofText_anchor_append (a : Anchor) (t : Text) :
    (ofText (a.text ++ t)).names = (ofText t).names := by
  cases a with
  | relative => rfl
  | root => exact names_ofText_cons_slash t
  | doubleRoot => exact (names_ofText_cons_slash ('/' :: t)).trans (names_ofText_cons_slash t)

theorem ofText_anchor_joined (p : Path) : ofText (p.anchor.text ++ p.joined) = p :=
  ext_anchor_names (Anchor.ofText_text_append p.head?_joined p.anchor)
    ((names_ofText_anchor_append p.anchor p.joined).trans p.filter_split_joined)

/-- **The text of a path means that path.** -/
theorem ofText_text (p : Path) : ofText p.text = p := by
  have hjoined := p.ofText_anchor_joined
  rw [joined] at hjoined
  unfold text
  split
  · -- The dot stands where there is nothing to write, and means what nothing means.
    rename_i hnil
    rw [← hjoined, hnil]
    decide
  · exact hjoined

/-- Three slashes in front are as good as one, and the empty text means the same as a dot. -/
example : (ofText "///./".toList).text = ['/'] ∧ (ofText []).text = ['.'] := by
  decide

end Path

end NetlistPrep
