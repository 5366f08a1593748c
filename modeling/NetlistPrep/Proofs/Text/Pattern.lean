import NetlistPrep.Text.Pattern

/-!
# How patterns match

What the first match of a pattern is, part by part. A part behind another one is looked at for every
way of the first part in turn (`first?_seq`), so it takes an argument to say which of them counts.

* `first?_seq_of_isSome`: the first way counts if the part behind it matches there.
* `first?_seq_optional`: an optional part is tried with it and then without it.
* `first?_seq_many`: a row is as long as it can be, if nothing that matches behind a shorter row
  fails behind the longest one.
-/

namespace NetlistPrep.Pattern

variable {a b : Pattern} {p : Char → Bool} {last : Option Char} {t : Text}

/-! ## The ways of the single parts -/

theorem rows_cons (p : Char → Bool) (c : Char) (r : Text) : rows p (c :: r) =
    if p c then (rows p r).map (.cons c) ++ [.nothing (c :: r)] else [.nothing (c :: r)] := rfl

theorem ways_empty (last : Option Char) (t : Text) : empty.ways last t = [.nothing t] := rfl

theorem ways_notBehind (p : Char → Bool) (last : Option Char) (t : Text) :
    (notBehind p).ways last t = if last.any p then [] else [.nothing t] := rfl

theorem ways_char_cons (p : Char → Bool) (last : Option Char) (c : Char) (r : Text) :
    (char p).ways last (c :: r) = if p c then [⟨[c], [], r⟩] else [] := rfl

theorem ways_many (p : Char → Bool) (last : Option Char) (t : Text) :
    (many p).ways last t = rows p t := rfl

theorem ways_seq (a b : Pattern) (last : Option Char) (t : Text) : (seq a b).ways last t =
    (a.ways last t).flatMap fun m => (b.ways (m.last? last) m.rest).map m.append := rfl

theorem ways_alt (a b : Pattern) (last : Option Char) (t : Text) :
    (alt a b).ways last t = a.ways last t ++ b.ways last t := rfl

theorem ways_group (a : Pattern) (last : Option Char) (t : Text) : (group a).ways last t =
    (a.ways last t).map fun m => { m with groups := m.text :: m.groups } := rfl

/-! ## One part behind another -/

/-- How a pattern matches behind a way that begins behind `last`, both together. -/
def behind (b : Pattern) (last : Option Char) (m : Way) : Option Way :=
  (b.first? (m.last? last) m.rest).map m.append

theorem behind_nothing (b : Pattern) (last : Option Char) (t : Text) :
    b.behind last (.nothing t) = b.first? last t := by
  show (b.first? last t).map (Way.nothing t).append = b.first? last t
  cases b.first? last t <;> rfl

theorem behind_cons (b : Pattern) (last : Option Char) (c : Char) (m : Way) :
    b.behind last (m.cons c) = (b.behind (some c) m).map (.cons c) := by
  have hlast : (m.cons c).last? last = m.last? (some c) := by
    simp only [Way.last?, Way.cons, List.getLast?_cons]
    cases m.text.getLast? <;> rfl
  rw [behind, behind, hlast, Option.map_map]
  rfl

theorem behind_append (b : Pattern) (last : Option Char) (m m' : Way) :
    b.behind last (m.append m') = (b.behind (m.last? last) m').map m.append := by
  have hlast : (m.append m').last? last = m'.last? (m.last? last) := by
    simp only [Way.last?, Way.append, List.getLast?_append, Option.or_assoc]
  have happend : ∀ m'' : Way, (m.append m').append m'' = m.append (m'.append m'') := by
    intro m''
    simp only [Way.append, List.append_assoc]
  rw [behind, behind, hlast, Option.map_map]
  exact Option.map_congr fun m'' _ => happend m''

theorem first?_seq (a b : Pattern) (last : Option Char) (t : Text) :
    (seq a b).first? last t = (a.ways last t).findSome? (b.behind last) := by
  simp only [first?, ways_seq, List.head?_flatMap, List.head?_map]
  rfl

theorem first?_seq_of_isSome {m : Way} (ha : a.first? last t = some m)
    (hb : (b.behind last m).isSome = true) : (seq a b).first? last t = b.behind last m := by
  obtain ⟨more, hways⟩ := List.head?_eq_some_iff.1 ha
  obtain ⟨m', hm'⟩ := Option.isSome_iff_exists.1 hb
  rw [first?_seq, hways, List.findSome?_cons, hm']

theorem first?_seq_of_eq_none (ha : a.first? last t = none) : (seq a b).first? last t = none := by
  rw [first?_seq, List.head?_eq_none_iff.1 ha]
  rfl

/-- Behind the first way, if the part behind matches everywhere. -/
theorem first?_seq_of_total (hb : ∀ last t, (b.first? last t).isSome = true) (a : Pattern)
    (last : Option Char) (t : Text) :
    (seq a b).first? last t = (a.first? last t).bind (b.behind last) := by
  cases ha : a.first? last t with
  | none => exact first?_seq_of_eq_none ha
  | some m => exact first?_seq_of_isSome ha (by rw [behind, Option.isSome_map, hb])

/-! ## Single parts -/

theorem first?_alt (a b : Pattern) (last : Option Char) (t : Text) :
    (alt a b).first? last t = (a.first? last t).or (b.first? last t) := by
  simp only [first?, ways_alt, List.head?_append]

theorem first?_optional (a : Pattern) (last : Option Char) (t : Text) :
    (optional a).first? last t = (a.first? last t).or (some (.nothing t)) :=
  first?_alt a empty last t

theorem first?_group (a : Pattern) (last : Option Char) (t : Text) :
    (group a).first? last t =
      (a.first? last t).map fun m => { m with groups := m.text :: m.groups } := by
  simp only [first?, ways_group, List.head?_map]

/-- **With the optional part first, then without it.** -/
theorem first?_seq_optional (a b : Pattern) (last : Option Char) (t : Text) :
    (seq (optional a) b).first? last t = ((seq a b).first? last t).or (b.first? last t) := by
  simp only [first?_seq, optional, ways_alt, ways_empty, List.findSome?_append,
    List.findSome?_singleton, behind_nothing]

theorem first?_seq_notBehind (p : Char → Bool) (b : Pattern) (last : Option Char) (t : Text) :
    (seq (notBehind p) b).first? last t = if last.any p then none else b.first? last t := by
  rw [first?_seq, ways_notBehind]
  split
  · rfl
  · rw [List.findSome?_singleton, behind_nothing]

theorem first?_seq_char_cons (p : Char → Bool) (b : Pattern) (last : Option Char) (c : Char)
    (r : Text) : (seq (char p) b).first? last (c :: r) =
      if p c then (b.first? (some c) r).map (.cons c) else none := by
  rw [first?_seq, ways_char_cons]
  split
  · rw [List.findSome?_singleton]
    rfl
  · rfl

theorem ways_word (w : Text) (last : Option Char) (t : Text) : (word w).ways last t =
    if w.isPrefixOf t then [⟨w, [], t.drop w.length⟩] else [] := by
  induction w generalizing last t with
  | nil => rfl
  | cons d w ih =>
    rw [word, ways_seq]
    cases t with
    | nil => rfl
    | cons c r =>
      rw [ways_char_cons]
      by_cases hc : c = d
      · subst hc
        simp only [beq_self_eq_true, if_true, List.flatMap_cons, List.flatMap_nil, ih]
        by_cases hw : w.isPrefixOf r = true <;> simp [hw, Way.append]
      · have hne : ¬ d = c := fun h => hc h.symm
        simp [hc, hne]

theorem first?_seq_word (w : Text) (b : Pattern) (last : Option Char) (t : Text) :
    (seq (word w) b).first? last t =
      if w.isPrefixOf t then b.behind last ⟨w, [], t.drop w.length⟩ else none := by
  rw [first?_seq, ways_word]
  split
  · rw [List.findSome?_singleton]
  · rfl

/-! ## Rows -/

/-- The longest row of a class at the start of a text. -/
def longest (p : Char → Bool) (t : Text) : Way := ⟨t.takeWhile p, [], t.dropWhile p⟩

theorem longest_cons_of_pos {c : Char} {r : Text} (hc : p c = true) :
    longest p (c :: r) = (longest p r).cons c := by
  rw [longest, List.takeWhile_cons_of_pos hc, List.dropWhile_cons_of_pos hc]
  rfl

theorem longest_cons_of_neg {c : Char} {r : Text} (hc : p c = false) :
    longest p (c :: r) = .nothing (c :: r) := by
  rw [longest, List.takeWhile_cons_of_neg (by simp [hc]), List.dropWhile_cons_of_neg (by simp [hc])]
  rfl

theorem first?_many (p : Char → Bool) (last : Option Char) (t : Text) :
    (many p).first? last t = some (longest p t) := by
  rw [first?, ways_many]
  induction t with
  | nil => rfl
  | cons c r ih =>
    rw [rows_cons]
    cases hc : p c with
    | true => simp [List.head?_append, List.head?_map, ih, longest_cons_of_pos hc]
    | false => simp [longest_cons_of_neg hc]

theorem first?_many1 (p : Char → Bool) (last : Option Char) (t : Text) :
    (many1 p).first? last t = if t.takeWhile p = [] then none else some (longest p t) := by
  cases t with
  | nil => rfl
  | cons c r =>
    rw [many1, first?_seq_char_cons, first?_many]
    cases hc : p c with
    | true => simp [List.takeWhile_cons_of_pos hc, longest_cons_of_pos hc]
    | false => simp [hc]

theorem first?_seq_many1_cons (p : Char → Bool) (b : Pattern) (last : Option Char) (c : Char)
    (r : Text) : (seq (many1 p) b).first? last (c :: r) =
      if p c then ((seq (many p) b).first? (some c) r).map (.cons c) else none := by
  have hways : (many1 p).ways last (c :: r) = if p c then (rows p r).map (.cons c) else [] := by
    rw [many1, ways_seq, ways_char_cons]
    split
    · rw [List.flatMap_singleton]
      rfl
    · rfl
  rw [first?_seq, first?_seq, hways]
  split
  · simp only [ways_many, List.findSome?_map, Function.comp_def, behind_cons, List.map_findSome?]
  · rfl

theorem first?_seq_many_cons (p : Char → Bool) (b : Pattern) (last : Option Char) (c : Char)
    (r : Text) : (seq (many p) b).first? last (c :: r) =
      if p c then
        (((seq (many p) b).first? (some c) r).map (.cons c)).or (b.first? last (c :: r))
      else b.first? last (c :: r) := by
  simp only [first?_seq, ways_many, rows_cons]
  split
  · simp only [List.findSome?_append, List.findSome?_map, List.findSome?_singleton,
      behind_nothing, Function.comp_def, behind_cons, List.map_findSome?]
  · rw [List.findSome?_singleton, behind_nothing]

/-- **A row is as long as it can be,** if what stands behind it never fails behind the longest row
and matches behind a shorter one. -/
theorem first?_seq_many
    (h : ∀ last last' s, b.first? last' (s.dropWhile p) = none → b.first? last s = none)
    (last : Option Char) (t : Text) :
    (seq (many p) b).first? last t = b.behind last (longest p t) := by
  induction t generalizing last with
  | nil =>
    rw [first?_seq]
    exact List.findSome?_singleton
  | cons c r ih =>
    rw [first?_seq_many_cons, ih]
    cases hc : p c with
    | false =>
      rw [longest_cons_of_neg hc, behind_nothing]
      rfl
    | true =>
      rw [longest_cons_of_pos hc, behind_cons, if_pos rfl]
      cases hb : b.behind (some c) (longest p r) with
      | some m => rfl
      | none =>
        -- Nothing behind the longest row, so nothing behind a shorter one either.
        refine h last ((longest p r).last? (some c)) (c :: r) ?_
        rw [List.dropWhile_cons_of_pos hc]
        exact Option.map_eq_none_iff.1 hb

end NetlistPrep.Pattern
