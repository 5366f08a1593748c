import NetlistPrep.Proofs.Text.Split
import Mathlib.Data.List.Forall2

/-!
# Replacing words

How `replaceAll` acts on a whole text, in three views.

* Character by character (`forall₂_replaceAll`): where the new word is related to the old one
  character by character, so are the two texts.
* At the end of a text (`replaceAll_concat`): a character that ends no occurrence is kept.
* Piece by piece (`replaceAll_sep_cons`): a word that begins with a separator and holds no other is
  replaced exactly at the starts of the pieces behind separators. `mapBehind` is a change of those
  pieces.
-/

namespace NetlistPrep.Text

variable {old new : Text}

theorem replaceFrom_eq_drop (old new : Text) (k : Nat) (t : Text) :
    replaceFrom old new k t = replaceFrom old new 0 (t.drop k) := by
  induction t generalizing k with
  | nil => simp [replaceFrom]
  | cons c r ih =>
    cases k with
    | zero => rfl
    | succ k => rw [replaceFrom, ih, List.drop_succ_cons]

theorem replaceFrom_pos (h : old <+: t) (hne : old ≠ []) :
    replaceFrom old new 0 t = new ++ replaceFrom old new 0 (t.drop old.length) := by
  cases t with
  | nil => exact absurd (List.prefix_nil.1 h) hne
  | cons c r =>
    obtain ⟨a, o, rfl⟩ := List.exists_cons_of_ne_nil hne
    rw [replaceFrom, if_pos (List.isPrefixOf_iff_prefix.2 h), replaceFrom_eq_drop]
    rfl

theorem replaceFrom_neg {c : Char} {r : Text} (h : ¬ old <+: c :: r) :
    replaceFrom old new 0 (c :: r) = c :: replaceFrom old new 0 r := by
  rw [replaceFrom, if_neg (mt List.isPrefixOf_iff_prefix.1 h)]

theorem replaceAll_eq (hne : old ≠ []) (t : Text) :
    replaceAll old new t = replaceFrom old new 0 t := if_neg hne

/-- **Induction along a replacement:** from one occurrence to the next, and character by character
where there is none. -/
theorem replace_induction {motive : Text → Prop} (hne : old ≠ []) (nil : motive [])
    (occurrence : ∀ q, motive q → motive (old ++ q))
    (other : ∀ c r, ¬ old <+: c :: r → motive r → motive (c :: r)) (t : Text) : motive t := by
  induction ht : t.length using Nat.strongRecOn generalizing t with
  | ind n ih =>
    subst ht
    cases t with
    | nil => exact nil
    | cons c r =>
      by_cases hp : old <+: c :: r
      · obtain ⟨q, hq⟩ := hp
        have hlen : q.length < (c :: r).length := by
          rw [← hq, List.length_append]
          have := List.length_pos_iff.2 hne
          omega
        rw [← hq]
        exact occurrence q (ih _ hlen q rfl)
      · exact other c r hp (ih _ (by simp) r rfl)

/-! ## Character by character -/

/-- **Replacing a word by a related one gives a related text.** -/
theorem forall₂_replaceAll {R : Char → Char → Prop} (hrefl : ∀ c, R c c)
    (hne : old ≠ []) (h : List.Forall₂ R old new) (t : Text) :
    List.Forall₂ R t (replaceAll old new t) := by
  rw [replaceAll_eq hne]
  induction t using replace_induction hne with
  | nil => simp [replaceFrom]
  | occurrence q ih =>
    rw [replaceFrom_pos (List.prefix_append old q) hne, List.drop_left]
    exact List.rel_append h ih
  | other c r hp ih =>
    rw [replaceFrom_neg hp]
    exact .cons (hrefl c) ih

/-! ## At the end -/

/-- **A character that ends no occurrence is kept at the end.** -/
theorem replaceAll_concat {c : Char} (hne : old ≠ []) (h : old.getLast? ≠ some c) (t : Text) :
    replaceAll old new (t ++ [c]) = replaceAll old new t ++ [c] := by
  have hstart : ∀ s : Text, old <+: s ++ [c] ↔ old <+: s := by
    intro s
    rw [List.prefix_concat_iff]
    refine ⟨fun hs => hs.resolve_left fun he => h (by simp [he]), .inr⟩
  rw [replaceAll_eq hne, replaceAll_eq hne]
  induction t using replace_induction hne with
  | nil =>
    have hp : ¬ old <+: c :: [] := fun hp => hne (List.prefix_nil.1 ((hstart []).1 hp))
    rw [List.nil_append, replaceFrom_neg hp]
    rfl
  | occurrence q ih =>
    rw [replaceFrom_pos (List.prefix_append old q) hne, List.append_assoc,
      replaceFrom_pos (List.prefix_append old _) hne, List.drop_left, List.drop_left, ih,
      List.append_assoc]
  | other d r hp ih =>
    have hp' : ¬ old <+: d :: (r ++ [c]) := fun hp' => hp ((hstart (d :: r)).1 hp')
    rw [List.cons_append, replaceFrom_neg hp', replaceFrom_neg hp, ih, List.cons_append]

/-! ## Piece by piece -/

/-- A text with `new` in the place of `old` at its start, if `old` stands there. -/
def replaceStart (old new t : Text) : Text :=
  if old.isPrefixOf t then new ++ t.drop old.length else t

/-- A text with every piece behind a separator changed; the first piece stays. -/
def mapBehind (sep : Char) (f : Text → Text) (t : Text) : Text :=
  let pieces := split (· == sep) t
  [sep].intercalate (pieces.take 1 ++ pieces.tail.map f)

theorem mapBehind_of_split {sep : Char} {t p : Text} {ps : List Text}
    (h : split (· == sep) t = p :: ps) (f : Text → Text) :
    mapBehind sep f t = [sep].intercalate (p :: ps.map f) := by
  simp [mapBehind, h]

/-- A word stands at the start of a text if it stands at the start of one that goes on with a
character the word does not hold. -/
theorem prefix_of_prefix_append {word a b : Text} (h : word <+: a ++ b)
    (hb : ∀ c ∈ b.head?, c ∉ word) : word <+: a := by
  rcases List.prefix_or_prefix_of_prefix h (List.prefix_append a b) with h' | ⟨q, rfl⟩
  · exact h'
  · rw [List.prefix_append_right_inj] at h
    cases q with
    | nil => simp
    | cons c q =>
      obtain ⟨r, rfl⟩ := h
      exact absurd (by simp) (hb c (by simp))

theorem prefix_intercalate_iff {sep : Char} {word p : Text} {ps : List Text} (h : sep ∉ word) :
    word <+: [sep].intercalate (p :: ps) ↔ word <+: p := by
  cases ps with
  | nil => simp
  | cons q qs =>
    rw [List.intercalate_cons_cons, List.append_assoc]
    refine ⟨fun hw => prefix_of_prefix_append hw ?_, fun hw => hw.trans (List.prefix_append _ _)⟩
    simpa using h

theorem intercalate_append_cons {sep : Char} (a p : Text) (ps : List Text) :
    [sep].intercalate ((a ++ p) :: ps) = a ++ [sep].intercalate (p :: ps) := by
  cases ps <;> simp [List.intercalate_cons_cons]

theorem replaceFrom_sep_append {sep : Char} {a : Text} (ha : sep ∉ a) (b : Text) :
    replaceFrom (sep :: old) new 0 (a ++ b) = a ++ replaceFrom (sep :: old) new 0 b := by
  induction a with
  | nil => rfl
  | cons c a ih =>
    simp only [List.mem_cons, not_or] at ha
    have hp : ¬ sep :: old <+: c :: (a ++ b) := fun hp => ha.1 (List.cons_prefix_cons.1 hp).1
    rw [List.cons_append, replaceFrom_neg hp, ih ha.2, List.cons_append]

theorem replaceFrom_intercalate {sep : Char} (hsep : sep ∉ old) (p : Text) (ps : List Text)
    (h : ∀ q ∈ p :: ps, sep ∉ q) :
    replaceFrom (sep :: old) (sep :: new) 0 ([sep].intercalate (p :: ps)) =
      [sep].intercalate (p :: ps.map (replaceStart old new)) := by
  induction ps generalizing p with
  | nil =>
    simpa [replaceFrom] using @replaceFrom_sep_append old (sep :: new) sep p (h p (by simp)) []
  | cons q qs ih =>
    have hq : sep ∉ q := h q (by simp)
    have hqs : ∀ x ∈ qs, sep ∉ x := fun x hx => h x (by simp [hx])
    rw [List.map_cons, List.intercalate_cons_cons, List.intercalate_cons_cons, List.append_assoc,
      List.append_assoc, replaceFrom_sep_append (h p (by simp)), List.singleton_append,
      List.singleton_append]
    congr 1
    by_cases hp : old <+: q
    · obtain ⟨r, rfl⟩ := hp
      have hr : ∀ x ∈ r :: qs, sep ∉ x := by
        intro x hx
        rcases List.mem_cons.1 hx with rfl | hx
        · exact fun hm => hq (List.mem_append_right _ hm)
        · exact hqs x hx
      have hstart : replaceStart old new (old ++ r) = new ++ r := by simp [replaceStart]
      have hword : sep :: old <+: sep :: (old ++ [sep].intercalate (r :: qs)) :=
        List.prefix_append (sep :: old) _
      rw [hstart, intercalate_append_cons, intercalate_append_cons,
        replaceFrom_pos hword (by simp)]
      simp only [List.length_cons, List.drop_succ_cons, List.drop_left, List.cons_append]
      rw [ih r hr]
    · have hstart : replaceStart old new q = q := by
        rw [replaceStart, if_neg (mt List.isPrefixOf_iff_prefix.1 hp)]
      have hp' : ¬ sep :: old <+: sep :: [sep].intercalate (q :: qs) := by
        rw [List.cons_prefix_cons, prefix_intercalate_iff hsep]
        exact fun hp' => hp hp'.2
      rw [hstart, replaceFrom_neg hp', ih q fun x hx => h x (List.mem_cons_of_mem _ hx)]

theorem sep_not_mem_of_mem_split {sep : Char} {t p : Text} (h : p ∈ split (· == sep) t) :
    sep ∉ p := fun hs => by simpa using not_sep_of_mem_split h sep hs

/-- **A word behind a separator is replaced at the starts of pieces.** -/
theorem replaceAll_sep_cons {sep : Char} (hsep : sep ∉ old) (t : Text) :
    replaceAll (sep :: old) (sep :: new) t = mapBehind sep (replaceStart old new) t := by
  obtain ⟨p, ps, hp⟩ := List.exists_cons_of_ne_nil (split_ne_nil (· == sep) t)
  have ht := intercalate_split sep t
  rw [hp] at ht
  have hpieces : ∀ q ∈ p :: ps, sep ∉ q := fun q hq => sep_not_mem_of_mem_split (hp ▸ hq)
  rw [replaceAll_eq (by simp), mapBehind_of_split hp, ← replaceFrom_intercalate hsep p ps hpieces,
    ht]

theorem split_mapBehind {sep : Char} {f : Text → Text} (hf : ∀ p, sep ∉ p → sep ∉ f p)
    {t p : Text} {ps : List Text} (hp : split (· == sep) t = p :: ps) :
    split (· == sep) (mapBehind sep f t) = p :: ps.map f := by
  rw [mapBehind_of_split hp]
  refine split_intercalate (by simp) fun q hq => ?_
  rcases List.mem_cons.1 hq with rfl | hq
  · exact sep_not_mem_of_mem_split (hp ▸ List.mem_cons_self)
  · obtain ⟨x, hx, rfl⟩ := List.mem_map.1 hq
    exact hf x (sep_not_mem_of_mem_split (hp ▸ List.mem_cons_of_mem _ hx))

theorem mapBehind_mapBehind {sep : Char} {f g : Text → Text} (hf : ∀ p, sep ∉ p → sep ∉ f p)
    (t : Text) : mapBehind sep g (mapBehind sep f t) = mapBehind sep (g ∘ f) t := by
  obtain ⟨p, ps, hp⟩ := List.exists_cons_of_ne_nil (split_ne_nil (· == sep) t)
  rw [mapBehind_of_split (split_mapBehind hf hp), mapBehind_of_split hp, List.map_map]

theorem mapBehind_eq_self_iff {sep : Char} {f : Text → Text} (hf : ∀ p, sep ∉ p → sep ∉ f p)
    (t : Text) : mapBehind sep f t = t ↔ ∀ p ∈ (split (· == sep) t).tail, f p = p := by
  obtain ⟨p, ps, hp⟩ := List.exists_cons_of_ne_nil (split_ne_nil (· == sep) t)
  rw [hp, List.tail_cons]
  constructor
  · intro h
    have hs := split_mapBehind hf hp
    rw [h, hp] at hs
    have hmap : ps.map f = ps.map id := by simpa using hs.symm
    exact List.map_inj_left.1 hmap
  · intro h
    have hmap : ps.map f = ps.map id := List.map_inj_left.2 h
    rw [mapBehind_of_split hp, hmap, List.map_id, ← hp, intercalate_split]

/-- The first piece of a text stands at its start, and a separator is next. -/
theorem mapBehind_start (sep : Char) (f : Text → Text) (t : Text) :
    ∃ a b c, t = a ++ b ∧ mapBehind sep f t = a ++ c ∧
      (∀ x ∈ b.head?, x = sep) ∧ ∀ x ∈ c.head?, x = sep := by
  obtain ⟨p, ps, hp⟩ := List.exists_cons_of_ne_nil (split_ne_nil (· == sep) t)
  have ht := intercalate_split sep t
  rw [hp] at ht
  rw [mapBehind_of_split hp]
  cases ps with
  | nil => exact ⟨p, [], [], by simpa using ht.symm, by simp, by simp, by simp⟩
  | cons q qs =>
    refine ⟨p, sep :: [sep].intercalate (q :: qs), sep :: [sep].intercalate ((q :: qs).map f),
      ?_, ?_, by simp, by simp⟩
    · rw [← ht, List.intercalate_cons_cons, List.append_assoc, List.singleton_append]
    · simp only [List.map_cons, List.intercalate_cons_cons, List.append_assoc,
        List.singleton_append]

/-- **A word without a separator begins both texts or none.** -/
theorem prefix_mapBehind_iff {sep : Char} {word : Text} (h : sep ∉ word) (f : Text → Text)
    (t : Text) : word <+: mapBehind sep f t ↔ word <+: t := by
  obtain ⟨a, b, c, rfl, hc, hb, hc'⟩ := mapBehind_start sep f t
  rw [hc]
  constructor <;> intro hw
  · exact (prefix_of_prefix_append hw fun x hx => hc' x hx ▸ h).trans (List.prefix_append a b)
  · exact (prefix_of_prefix_append hw fun x hx => hb x hx ▸ h).trans (List.prefix_append a c)

theorem exists_of_mem_intercalate {sep : Char} {p : Text} {ps : List Text} (h : p ∈ ps) (q : Text) :
    ∃ a b, [sep].intercalate (q :: ps) = a ++ sep :: (p ++ b) := by
  induction ps generalizing q with
  | nil => simp at h
  | cons x xs ih =>
    rw [List.intercalate_cons_cons, List.append_assoc, List.singleton_append]
    rcases List.mem_cons.1 h with rfl | h
    · refine ⟨q, [sep].intercalate ([] :: xs), ?_⟩
      rw [← intercalate_append_cons, List.append_nil]
    · obtain ⟨a, b, hab⟩ := ih h x
      exact ⟨q ++ sep :: a, b, by rw [hab]; simp⟩

/-- A word behind a separator occurs in a text if and only if it begins a piece behind one. -/
theorem sep_cons_infix_iff {sep : Char} {word : Text} (h : sep ∉ word) (t : Text) :
    sep :: word <:+: t ↔ ∃ p ∈ (split (· == sep) t).tail, word <+: p := by
  constructor
  · rintro ⟨a, b, rfl⟩
    obtain ⟨p, ps, hp⟩ := List.exists_cons_of_ne_nil (split_ne_nil (· == sep) (word ++ b))
    obtain ⟨q, qs, hq⟩ := List.exists_cons_of_ne_nil (split_ne_nil (· == sep) a)
    have hb := intercalate_split sep (word ++ b)
    rw [hp] at hb
    refine ⟨p, ?_, (prefix_intercalate_iff h).1 (hb ▸ List.prefix_append word b)⟩
    rw [List.append_assoc, List.cons_append, split_append_cons (by simp), hp, hq]
    simp
  · rintro ⟨p, hp, r, rfl⟩
    obtain ⟨q, qs, hq⟩ := List.exists_cons_of_ne_nil (split_ne_nil (· == sep) t)
    have ht := intercalate_split sep t
    rw [hq, List.tail_cons] at hp
    rw [hq] at ht
    obtain ⟨a, b, hab⟩ := @exists_of_mem_intercalate sep _ _ hp q
    exact ⟨a, r ++ b, by rw [← ht, hab]; simp⟩

end NetlistPrep.Text
