import NetlistPrep.FileTree

/-!
# Writing to a tree of files

What a write that succeeds changes in a tree, and that the file reads back by its path.

* `FileTree.of_locate_eq_ok`: a walk that does not end in a directory ends below the root, with what
  the tree has at the place where it ends.
* `FileTree.Replaced` says that one file has a content and all else is as before;
  `FileTree.of_write_eq_ok` says that a write leaves such a tree.
-/

namespace NetlistPrep

namespace FileTree

variable {t t' : FileTree} {place next : Place} {node : Option Node} {p : Path}

/-! ## Putting one thing into a tree -/

theorem lookup_filter_ne {other : Place} (h : other ≠ place) (nodes : List (Place × Node)) :
    (nodes.filter fun e => e.1 ≠ place).lookup other = nodes.lookup other := by
  induction nodes with
  | nil => rfl
  | cons e nodes ih =>
    by_cases he : e.1 = place
    · have hne : (other == e.1) = false := beq_eq_false_iff_ne.2 (he ▸ h)
      rw [List.filter_cons_of_neg (by simpa using he), ih, List.lookup_cons, hne]
    · rw [List.filter_cons_of_pos (by simpa using he), List.lookup_cons, List.lookup_cons, ih]

theorem node?_put (h : place ≠ []) (node : Node) (t : FileTree) (q : Place) :
    (t.put place node).node? q = if q = place then some node else t.node? q := by
  by_cases hq : q = place
  · rw [if_pos hq, hq, node?, if_neg h, put, List.lookup_cons_self]
  · have hne : (q == place) = false := beq_eq_false_iff_ne.2 hq
    simp only [node?, put, List.lookup_cons, hne, lookup_filter_ne hq, if_neg hq]

/-! ## Where a walk ends -/

theorem of_step_eq_ok {name : Text} (h : t.step place name = .ok (next, node))
    (hnode : node ≠ some .directory) : next ≠ [] ∧ t.node? next = node := by
  unfold step at h
  split at h
  · cases h
    exact absurd rfl hnode
  · split at h
    · cases h
    · cases h
      exact ⟨by simp, rfl⟩

theorem of_walk_eq_ok {names : List Text} (h : t.walk place names = .ok (next, node))
    (hnode : node ≠ some .directory) : next ≠ [] ∧ t.node? next = node := by
  induction names generalizing place with
  | nil =>
    cases h
    exact absurd rfl hnode
  | cons name rest ih =>
    unfold walk at h
    split at h
    · cases h
    · rename_i step_next step_node hstep
      split at h
      · cases h
        exact of_step_eq_ok hstep hnode
      · split at h
        · exact ih h
        · cases h
        · cases h

theorem of_locate_eq_ok (h : t.locate p = .ok (place, node)) (hnode : node ≠ some .directory) :
    place ≠ [] ∧ t.node? place = node := by
  unfold locate at h
  split at h
  · cases h
  · exact of_walk_eq_ok h hnode

/-! ## The same walk after a write -/

variable {start : Place} {name : Text} {new : Node}

theorem step_put (hroot : place ≠ []) (hplace : t.node? place ≠ some .directory)
    (h : t.step start name = .ok (next, node)) :
    (t.put place new).step start name =
      .ok (next, if next = place ∧ node ≠ some .directory then some new else node) := by
  unfold step at h ⊢
  split at h
  · rename_i hdots
    cases h
    simp [hdots]
  · rename_i hdots
    rw [if_neg hdots]
    split at h
    · cases h
    · rename_i hlength
      obtain ⟨rfl, rfl⟩ := Prod.mk.inj (Except.ok.inj h)
      rw [if_neg hlength, node?_put hroot]
      by_cases hp : start ++ [name] = place
      · rw [if_pos hp, if_pos ⟨hp, hp ▸ hplace⟩]
      · rw [if_neg hp, if_neg fun h => hp h.1]

theorem walk_put_self {names : List Text} (h : t.walk start names = .ok (place, node))
    (hnode : node ≠ some .directory) :
    (t.put place new).walk start names = .ok (place, some new) := by
  have hroot : place ≠ [] := (of_walk_eq_ok h hnode).1
  have hplace : t.node? place ≠ some .directory := (of_walk_eq_ok h hnode).2 ▸ hnode
  induction names generalizing start with
  | nil =>
    cases h
    exact absurd rfl hnode
  | cons name rest ih =>
    unfold walk at h ⊢
    split at h
    · cases h
    · rename_i step_next step_node hstep
      split at h
      · rename_i hrest
        cases h
        rw [step_put hroot hplace hstep, if_pos ⟨rfl, hnode⟩]
        exact if_pos hrest
      · rename_i hrest
        split at h
        · rw [step_put hroot hplace hstep, if_neg fun h => h.2 rfl]
          simp only [if_neg hrest]
          exact ih h
        · cases h
        · cases h

theorem locate_put_self (h : t.locate p = .ok (place, node)) (hnode : node ≠ some .directory) :
    (t.put place new).locate p = .ok (place, some new) := by
  unfold locate at h ⊢
  split at h
  · cases h
  · rw [if_neg (by assumption)]
    exact walk_put_self h hnode

/-! ## A write that succeeds -/

/-- The tree `t'` is `t` but for the file at a place, which has the content. -/
structure Replaced (t : FileTree) (place : Place) (content : Octets) (t' : FileTree) : Prop where
  home : t'.home = t.home
  content : t'.content? place = some content
  other : ∀ q, q ≠ place → t'.node? q = t.node? q

/-- **A write changes one file:** the one where the path leads, which reads back as what was
written. -/
theorem of_write_eq_ok {content : Octets} (h : t.write p content = .ok t') :
    t'.read p = .ok content ∧
      ∃ place node, t.locate p = .ok (place, node) ∧ Replaced t place content t' := by
  unfold write at h
  split at h
  · cases h
  · cases h
  · rename_i place node hnode hlocate
    obtain rfl := Except.ok.inj h
    obtain ⟨hroot, -⟩ := of_locate_eq_ok hlocate hnode
    refine ⟨?_, place, node, hlocate, rfl, ?_, fun q hq => ?_⟩
    · rw [read, locate_put_self hlocate hnode]
    · rw [content?, node?_put hroot, if_pos rfl]
    · rw [node?_put hroot, if_neg hq]

end FileTree

namespace TextFile

theorem write_eq_ok_iff {tree written : FileTree} {shown text : Text} {p : Path} :
    write tree shown p text = .ok written ↔
      '\x00' ∉ p.text ∧ tree.write p (Utf8.encode text) = .ok written := by
  unfold write openable
  by_cases hnul : '\x00' ∈ p.text
  · simp [hnul, bind, Except.bind]
  · cases hwrite : tree.write p (Utf8.encode text) <;>
      simp [hnul, hwrite, bind, Except.bind, pure, Except.pure]

end TextFile

end NetlistPrep
