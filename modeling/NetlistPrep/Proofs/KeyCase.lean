import NetlistPrep.KeyCase
import NetlistPrep.Proofs.Text.Replace

/-!
# Keys in small letters

The nine replacements of attribute keys as one change of a line. A key begins behind a blank, so the
replacements change only the starts of the pieces between blanks, and at most one of them applies to
a piece (`lowerStart_cases`).

* `lowerKeys_standard`: the replacements are one change of the pieces behind blanks.
* `lowerKeys_lowerKeys`: a line in small letters stays as it is.
* `lowerKeys_eq_self_iff`: a line stays as it is if and only if no key in capitals occurs in it.
* `lowerKeys_dropReturn`, `prefix_lowerKeys_iff`, `newline_not_mem_lowerKeys`: line ends, section
  markers and line feeds are out of reach of the replacements.
-/

namespace NetlistPrep.KeyCase

open Text

/-- The replacements without the blank that a key begins behind. -/
def bare : List Replacement := standard.map fun r => (r.1.tail, r.2.tail)

theorem standard_eq_map_bare : standard = bare.map fun r => (' ' :: r.1, ' ' :: r.2) := by
  decide

/-- A piece of a line with the key at its start in small letters. -/
def lowerStart (t : Text) : Text := bare.foldl (fun t r => replaceStart r.1 r.2 t) t

/-! ## At the start of a piece -/

theorem not_prefix_append_of_head? {a b : Text} (ha : a ≠ []) (hb : b ≠ [])
    (h : a.head? ≠ b.head?) (q : Text) : ¬ a <+: b ++ q := by
  obtain ⟨x, s, rfl⟩ := List.exists_cons_of_ne_nil ha
  obtain ⟨y, u, rfl⟩ := List.exists_cons_of_ne_nil hb
  rw [List.cons_append, List.cons_prefix_cons]
  exact fun hp => h (by simp [hp.1])

/-- What a key became is no key in capitals. -/
theorem not_key_prefix_lower {r r' : Replacement} (hr : r ∈ bare) (hr' : r' ∈ bare) (q : Text) :
    ¬ r'.1 <+: r.2 ++ q := by
  have hheads : ∀ r ∈ bare, ∀ r' ∈ bare, r'.1 ≠ [] ∧ r.2 ≠ [] ∧ r'.1.head? ≠ r.2.head? := by decide
  obtain ⟨h1, h2, h3⟩ := hheads r hr r' hr'
  exact not_prefix_append_of_head? h1 h2 h3 q

theorem replaceStart_of_not_prefix {r : Replacement} {t : Text} (h : ¬ r.1 <+: t) :
    replaceStart r.1 r.2 t = t := if_neg (mt List.isPrefixOf_iff_prefix.1 h)

theorem foldl_replaceStart_of_not_prefix {rs : List Replacement} {t : Text}
    (h : ∀ r ∈ rs, ¬ r.1 <+: t) : rs.foldl (fun t r => replaceStart r.1 r.2 t) t = t := by
  induction rs with
  | nil => rfl
  | cons r rs ih =>
    rw [List.foldl_cons, replaceStart_of_not_prefix (h r List.mem_cons_self)]
    exact ih fun r' hr' => h r' (List.mem_cons_of_mem _ hr')

theorem foldl_replaceStart_cases {rs : List Replacement} (hrs : ∀ r ∈ rs, r ∈ bare) (t : Text) :
    (∀ r ∈ rs, ¬ r.1 <+: t) ∨
      ∃ r ∈ rs, ∃ q, t = r.1 ++ q ∧ rs.foldl (fun t r => replaceStart r.1 r.2 t) t = r.2 ++ q := by
  induction rs with
  | nil => exact .inl (by simp)
  | cons r rs ih =>
    have hrest : ∀ r' ∈ rs, r' ∈ bare := fun r' hr' => hrs r' (List.mem_cons_of_mem _ hr')
    by_cases hp : r.1 <+: t
    · obtain ⟨q, rfl⟩ := hp
      refine .inr ⟨r, List.mem_cons_self, q, rfl, ?_⟩
      have hstart : replaceStart r.1 r.2 (r.1 ++ q) = r.2 ++ q := by simp [replaceStart]
      rw [List.foldl_cons, hstart]
      exact foldl_replaceStart_of_not_prefix fun r' hr' =>
        not_key_prefix_lower (hrs r List.mem_cons_self) (hrest r' hr') q
    · rw [List.foldl_cons, replaceStart_of_not_prefix hp]
      rcases ih hrest with h | ⟨r', hr', q, hq, hfold⟩
      · left
        intro r' hr'
        rcases List.mem_cons.1 hr' with rfl | hr'
        · exact hp
        · exact h r' hr'
      · exact .inr ⟨r', List.mem_cons_of_mem _ hr', q, hq, hfold⟩

/-- **At most one key applies to a piece.** Either no key in capitals begins it and it stays, or one
does and becomes small. -/
theorem lowerStart_cases (t : Text) :
    ((∀ r ∈ bare, ¬ r.1 <+: t) ∧ lowerStart t = t) ∨
      ∃ r ∈ bare, ∃ q, t = r.1 ++ q ∧ lowerStart t = r.2 ++ q := by
  rcases foldl_replaceStart_cases (fun _ h => h) t with h | h
  · exact .inl ⟨h, foldl_replaceStart_of_not_prefix h⟩
  · exact .inr h

theorem not_key_prefix_lowerStart {r : Replacement} (hr : r ∈ bare) (t : Text) :
    ¬ r.1 <+: lowerStart t := by
  rcases lowerStart_cases t with ⟨h, he⟩ | ⟨r', hr', q, -, he⟩
  · rw [he]
    exact h r hr
  · rw [he]
    exact not_key_prefix_lower hr' hr q

theorem lowerStart_eq_self_iff {t : Text} :
    lowerStart t = t ↔ ∀ r ∈ bare, ¬ r.1 <+: t :=
  ⟨fun h _ hr => h ▸ not_key_prefix_lowerStart hr t, foldl_replaceStart_of_not_prefix⟩

theorem lowerStart_lowerStart (t : Text) : lowerStart (lowerStart t) = lowerStart t :=
  lowerStart_eq_self_iff.2 fun _ hr => not_key_prefix_lowerStart hr t

theorem blank_not_mem_lowerStart {t : Text} (h : ' ' ∉ t) : ' ' ∉ lowerStart t := by
  have hbare : ∀ r ∈ bare, ' ' ∉ r.2 := by decide
  rcases lowerStart_cases t with ⟨-, he⟩ | ⟨r, hr, q, rfl, he⟩
  · rwa [he]
  · rw [he, List.mem_append, not_or]
    exact ⟨hbare r hr, fun hq => h (List.mem_append_right _ hq)⟩

/-! ## Over a line -/

theorem lowerKeys_cons_blank {rs : List Replacement} (h : ∀ r ∈ rs, ' ' ∉ r.1 ∧ ' ' ∉ r.2)
    (t : Text) : lowerKeys (rs.map fun r => (' ' :: r.1, ' ' :: r.2)) t =
      mapBehind ' ' (fun p => rs.foldl (fun t r => replaceStart r.1 r.2 t) p) t := by
  induction rs generalizing t with
  | nil => exact ((mapBehind_eq_self_iff (fun _ hp => hp) t).2 fun _ _ => rfl).symm
  | cons r rs ih =>
    have hr := h r List.mem_cons_self
    have hstart : ∀ p, ' ' ∉ p → ' ' ∉ replaceStart r.1 r.2 p := by
      intro p hp
      unfold replaceStart
      split
      · rw [List.mem_append, not_or]
        exact ⟨hr.2, fun hq => hp (List.mem_of_mem_drop hq)⟩
      · exact hp
    have hih := ih (fun r' hr' => h r' (List.mem_cons_of_mem _ hr'))
      (replaceAll (' ' :: r.1) (' ' :: r.2) t)
    rw [replaceAll_sep_cons hr.1, mapBehind_mapBehind hstart] at hih
    rw [List.map_cons, lowerKeys, List.foldl_cons, replaceAll_sep_cons hr.1]
    exact hih

/-- **The nine replacements are one change of the pieces behind blanks.** -/
theorem lowerKeys_standard (t : Text) : lowerKeys standard t = mapBehind ' ' lowerStart t := by
  rw [standard_eq_map_bare]
  exact lowerKeys_cons_blank (by decide) t

theorem lowerKeys_eq_self_iff_pieces (t : Text) :
    lowerKeys standard t = t ↔ ∀ p ∈ (split (· == ' ') t).tail, ∀ r ∈ bare, ¬ r.1 <+: p := by
  rw [lowerKeys_standard, mapBehind_eq_self_iff fun _ => blank_not_mem_lowerStart]
  simp only [lowerStart_eq_self_iff]

/-- **A line stays as it is if and only if no key in capitals occurs in it.** -/
theorem lowerKeys_eq_self_iff (t : Text) :
    lowerKeys standard t = t ↔ ∀ r ∈ standard, ¬ r.1 <:+: t := by
  have hbare : ∀ r ∈ bare, ' ' ∉ r.1 := by decide
  rw [lowerKeys_eq_self_iff_pieces, standard_eq_map_bare, List.forall_mem_map]
  constructor
  · intro h r hr hin
    obtain ⟨p, hp, hrp⟩ := (sep_cons_infix_iff (hbare r hr) t).1 hin
    exact h p hp r hr hrp
  · intro h p hp r hr hrp
    exact h r hr ((sep_cons_infix_iff (hbare r hr) t).2 ⟨p, hp, hrp⟩)

/-- **Small letters stay as they are.** -/
theorem lowerKeys_lowerKeys (t : Text) :
    lowerKeys standard (lowerKeys standard t) = lowerKeys standard t := by
  rw [lowerKeys_standard, lowerKeys_standard, mapBehind_mapBehind fun _ => blank_not_mem_lowerStart,
    Function.comp_def]
  simp only [lowerStart_lowerStart]

theorem lowerKeys_of_not_mem {t : Text} (h : '=' ∉ t) : lowerKeys standard t = t := by
  have hkeys : ∀ r ∈ standard, '=' ∈ r.1 := by decide
  rw [lowerKeys_eq_self_iff]
  exact fun r hr hin => h (hin.subset (hkeys r hr))

/-- A piece that begins with no key in capitals may be put behind a line in small letters. -/
theorem lowerKeys_append_piece {t p : Text} (ht : lowerKeys standard t = t) (hblank : ' ' ∉ p)
    (hp : ∀ r ∈ bare, ¬ r.1 <+: p) : lowerKeys standard (t ++ ' ' :: p) = t ++ ' ' :: p := by
  rw [lowerKeys_eq_self_iff_pieces] at ht ⊢
  have hone : split (· == ' ') p = [p] := by
    refine split_of_not_sep fun c hc => ?_
    rw [beq_eq_false_iff_ne]
    rintro rfl
    exact hblank hc
  obtain ⟨q, qs, hq⟩ := List.exists_cons_of_ne_nil (split_ne_nil (· == ' ') t)
  rw [split_append_cons (by simp), hone, hq]
  intro x hx
  rcases List.mem_append.1 (show x ∈ qs ++ [p] from hx) with hx | hx
  · exact ht x (by simpa [hq] using hx)
  · rw [List.mem_singleton.1 hx]
    exact hp

/-- **A word without a blank begins both lines or none.** -/
theorem prefix_lowerKeys_iff {word : Text} (h : ' ' ∉ word) (t : Text) :
    word <+: lowerKeys standard t ↔ word <+: t := by
  rw [lowerKeys_standard]
  exact prefix_mapBehind_iff h lowerStart t

/-! ## Character by character -/

/-- The first character is the second, or a capital where the second is a small letter. -/
def LowerOf (c d : Char) : Prop := d = c ∨ (c.isUpper = true ∧ d.isLower = true)

instance (c d : Char) : Decidable (LowerOf c d) := inferInstanceAs (Decidable (_ ∨ _))

theorem LowerOf.trans {c d e : Char} (h1 : LowerOf c d) (h2 : LowerOf d e) : LowerOf c e := by
  rcases h1 with rfl | ⟨hc, hd⟩
  · exact h2
  · rcases h2 with rfl | ⟨-, he⟩
    · exact .inr ⟨hc, hd⟩
    · exact .inr ⟨hc, he⟩

theorem forall₂_lowerOf_trans {t u v : Text} (h1 : List.Forall₂ LowerOf t u)
    (h2 : List.Forall₂ LowerOf u v) : List.Forall₂ LowerOf t v := by
  induction h1 generalizing v with
  | nil => exact h2
  | cons hcd _ ih =>
    cases h2 with
    | cons hde h2 => exact .cons (hcd.trans hde) (ih h2)

theorem forall₂_lowerKeys_of {rs : List Replacement}
    (h : ∀ r ∈ rs, r.1 ≠ [] ∧ List.Forall₂ LowerOf r.1 r.2) (t : Text) :
    List.Forall₂ LowerOf t (lowerKeys rs t) := by
  have hrefl : ∀ c, LowerOf c c := fun _ => .inl rfl
  induction rs generalizing t with
  | nil => exact List.forall₂_same.2 fun c _ => hrefl c
  | cons r rs ih =>
    obtain ⟨hne, hr⟩ := h r List.mem_cons_self
    have h1 := forall₂_replaceAll hrefl hne hr t
    have h2 := ih (fun r' hr' => h r' (List.mem_cons_of_mem _ hr')) (replaceAll r.1 r.2 t)
    exact forall₂_lowerOf_trans h1 h2

theorem forall₂_lowerKeys (t : Text) : List.Forall₂ LowerOf t (lowerKeys standard t) :=
  forall₂_lowerKeys_of (by decide) t

theorem length_lowerKeys (t : Text) : (lowerKeys standard t).length = t.length :=
  (forall₂_lowerKeys t).length_eq.symm

theorem lowerKeys_eq_nil_iff {t : Text} : lowerKeys standard t = [] ↔ t = [] := by
  rw [← List.length_eq_zero_iff, length_lowerKeys, List.length_eq_zero_iff]

theorem newline_not_mem_lowerKeys {t : Text} (h : '\n' ∉ t) : '\n' ∉ lowerKeys standard t := by
  intro hm
  have hall := forall₂_lowerKeys t
  generalize lowerKeys standard t = u at hm hall
  induction hall with
  | nil => simp at hm
  | cons hcd _ ih =>
    rw [List.mem_cons, not_or] at h
    rcases List.mem_cons.1 hm with rfl | hm
    · rcases hcd with he | ⟨-, he⟩
      · exact h.1 he
      · exact absurd he (by decide)
    · exact ih h.2 hm

/-! ## Line ends -/

theorem lowerKeys_concat_of {rs : List Replacement} {c : Char}
    (h : ∀ r ∈ rs, r.1 ≠ [] ∧ r.1.getLast? ≠ some c) (t : Text) :
    lowerKeys rs (t ++ [c]) = lowerKeys rs t ++ [c] := by
  induction rs generalizing t with
  | nil => rfl
  | cons r rs ih =>
    obtain ⟨hne, hc⟩ := h r List.mem_cons_self
    rw [lowerKeys, lowerKeys, List.foldl_cons, List.foldl_cons, replaceAll_concat hne hc]
    exact ih (fun r' hr' => h r' (List.mem_cons_of_mem _ hr')) _

theorem getLast?_lowerKeys_eq_return_iff (t : Text) :
    (lowerKeys standard t).getLast? = some '\r' ↔ t.getLast? = some '\r' := by
  have hrev := List.forall₂_reverse_iff.2 (forall₂_lowerKeys t)
  rw [List.getLast?_eq_head?_reverse, List.getLast?_eq_head?_reverse]
  generalize t.reverse = a at hrev
  generalize (lowerKeys standard t).reverse = b at hrev
  cases hrev with
  | nil => rfl
  | @cons c d _ _ hcd _ =>
    simp only [List.head?_cons, Option.some.injEq]
    rcases hcd with rfl | ⟨hc, hd⟩
    · rfl
    · constructor
      · rintro rfl
        exact absurd hd (by decide)
      · rintro rfl
        exact absurd hc (by decide)

/-- **A carriage return at the end of a line may be dropped before or after.** -/
theorem lowerKeys_dropReturn (t : Text) :
    lowerKeys standard (dropReturn t) = dropReturn (lowerKeys standard t) := by
  by_cases h : t.getLast? = some '\r'
  · rcases eq_or_eq_concat_of_dropReturn t with he | he
    · exact absurd h (dropReturn_eq_self_iff.1 he.symm)
    · have hkeys : ∀ r ∈ standard, r.1 ≠ [] ∧ r.1.getLast? ≠ some '\r' := by decide
      conv => rhs; rw [he, lowerKeys_concat_of hkeys, dropReturn_concat]
  · rw [dropReturn_eq_self_iff.2 h,
      dropReturn_eq_self_iff.2 (mt (getLast?_lowerKeys_eq_return_iff t).1 h)]

end NetlistPrep.KeyCase
