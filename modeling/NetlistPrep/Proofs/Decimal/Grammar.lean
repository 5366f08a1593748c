import Mathlib.Data.List.TakeWhile
import Mathlib.Logic.Basic
import NetlistPrep.Proofs.Decimal.Numeral

/-!
# Reading takes the longest numeral

`IsRow` is a row of characters that is as long as it can be.

* `isFormed_of_scan?`: what a reader takes belongs to the grammar.
* `exists_scan?_text_append`: at the start of whatever begins with a numeral the reader takes that
  numeral or goes on with it.
* `length_text_le_of_scan?` and `scan?_eq_none_iff` follow: the reader takes the longest numeral,
  and it takes none only where none begins.
-/

namespace NetlistPrep

/-- A row of characters of a class, and no such character behind it. -/
structure IsRow (p : Char → Bool) (row rest : Text) : Prop where
  all : ∀ c ∈ row, p c = true
  ends : ∀ c ∈ rest.head?, p c = false

theorem isRow_takeWhile (p : Char → Bool) (t : Text) : IsRow p (t.takeWhile p) (t.dropWhile p) where
  all _ hc := List.mem_takeWhile_imp hc
  ends := Numeral.head?_dropWhile p t

namespace Numeral

variable {digit : Char → Bool} {t rest : Text} {n : Numeral}

/-! ## What is read is a numeral -/

theorem mem_signs_of_scanSign (t : Text) : ∀ c ∈ (scanSign t).1, c ∈ ['+', '-'] := by
  cases t with
  | nil => simp [scanSign]
  | cons c r =>
    rw [scanSign]
    split
    · rename_i hc
      simpa using hc
    · simp

theorem scanFraction_eq_nil (h : (scanFraction digit t).1 = false) :
    (scanFraction digit t).2.1 = [] := by
  unfold scanFraction at h ⊢
  split
  · simp at h
  · rfl

theorem digit_of_mem_scanFraction (digit : Char → Bool) (t : Text) :
    ∀ c ∈ (scanFraction digit t).2.1, digit c = true := by
  intro c hc
  unfold scanFraction at hc
  split at hc
  · exact List.mem_takeWhile_imp hc
  · simp at hc

/-- An exponent that is read: its mark, a sign if there is one, and as many digits as there are. -/
theorem exists_of_scanExponent {e : Exponent} (h : (scanExponent digit t).1 = some e) :
    ∃ mark r, mark ∈ ['e', 'E'] ∧ (scanSign r).2.takeWhile digit ≠ [] ∧
      e = ⟨mark, (scanSign r).1, (scanSign r).2.takeWhile digit⟩ ∧
      (scanExponent digit t).2 = (scanSign r).2.dropWhile digit := by
  cases t with
  | nil => simp [scanExponent] at h
  | cons mark r =>
    simp only [scanExponent] at h ⊢
    split at h
    · rename_i hmark
      split at h
      · simp at h
      · rename_i hne
        obtain rfl := Option.some.inj h
        rw [if_pos hmark, if_neg hne]
        exact ⟨mark, r, by simpa using hmark, hne, rfl, rfl⟩
    · simp at h

theorem isFormed_of_scanExponent (digit : Char → Bool) (t : Text) :
    ∀ e ∈ (scanExponent digit t).1, e.IsFormed digit := by
  intro e he
  obtain ⟨mark, r, hmark, hne, rfl, -⟩ := exists_of_scanExponent he
  exact ⟨hmark, mem_signs_of_scanSign r, hne, fun c hc => List.mem_takeWhile_imp hc⟩

/-- The digits of an exponent that is read are as many as there can be. -/
theorem isRow_of_scanExponent (digit : Char → Bool) (t : Text) :
    ∀ e ∈ (scanExponent digit t).1, IsRow digit e.digits (scanExponent digit t).2 := by
  intro e he
  obtain ⟨mark, r, -, -, rfl, hrest⟩ := exists_of_scanExponent he
  rw [hrest]
  exact isRow_takeWhile digit _

theorem scanExponent_fst_eq_none_iff (hd : Reads digit) : (scanExponent digit t).1 = none ↔
    ∀ e : Exponent, e.IsFormed digit → ¬ e.text <+: t := by
  constructor
  · rintro hnone e he ⟨r, rfl⟩
    rw [scanExponent_text_append hd he] at hnone
    exact Option.some_ne_none _ hnone
  · intro h
    cases hscan : (scanExponent digit t).1 with
    | none => rfl
    | some e =>
      have htext := text_scanExponent digit t
      rw [hscan] at htext
      exact absurd ⟨_, htext⟩ (h e (isFormed_of_scanExponent digit t e hscan))

theorem isFormed_of_scan? (h : scan? digit t = some (n, rest)) : n.IsFormed digit := by
  simp only [scan?] at h
  split at h
  · simp at h
  · rename_i hsome
    obtain ⟨rfl, -⟩ := Prod.mk.inj (Option.some.inj h)
    exact {
      sign := mem_signs_of_scanSign t
      whole := fun c hc => List.mem_takeWhile_imp hc
      point := scanFraction_eq_nil
      fraction := digit_of_mem_scanFraction digit _
      some_digit := not_and_or.1 hsome
      exponent := isFormed_of_scanExponent digit _ }

/-! ## The longest numeral -/

namespace IsFormed

/-- Behind an exponent only its digits can go on. -/
theorem exists_scan?_of_exponent (hd : Reads digit) (hn : n.IsFormed digit) (rest : Text)
    {e : Exponent} (hexponent : n.exponent = some e) :
    ∃ n' rest', scan? digit (n.text ++ rest) = some (n', rest') ∧ n.text <+: n'.text := by
  have he := hn.exponent e hexponent
  obtain ⟨hmark, hnopoint⟩ := @head?_text_exponent digit rest hd e he
  have hafter := hn.head?_point_append hd hmark
  have hsome : ¬ (n.whole = [] ∧ n.fraction = []) :=
    fun h => hn.some_digit.elim (· h.1) (· h.2)
  have hsign := hn.scanSign_text_append hd rest
  rw [hexponent, Option.map_some, Option.getD_some] at hsign
  simp only [scan?, hsign, takeWhile_digits hn.whole hafter, dropWhile_digits hn.whole hafter,
    scanFraction_append hn.point hn.fraction hmark hnopoint, scanExponent_text_append hd he,
    if_neg hsome]
  refine ⟨_, _, rfl, ?_⟩
  simp [text, hexponent, Exponent.text]

/-- Behind a point digits can go on, and an exponent may follow. -/
theorem exists_scan?_of_point (hd : Reads digit) (hn : n.IsFormed digit) (rest : Text)
    (hexponent : n.exponent = none) (hpoint : n.point = true) :
    ∃ n' rest', scan? digit (n.text ++ rest) = some (n', rest') ∧ n.text <+: n'.text := by
  have hdot : ∀ r : Text, ∀ c ∈ ('.' :: r).head?, digit c = false := by
    simpa using hd.others '.' (by simp)
  have hsome : ¬ (n.whole = [] ∧ n.fraction ++ rest.takeWhile digit = []) := by
    intro h
    obtain ⟨hwhole, hfraction⟩ := h
    exact hn.some_digit.elim (· hwhole) (· (List.append_eq_nil_iff.1 hfraction).1)
  have hsign := hn.scanSign_text_append hd rest
  rw [hexponent, hpoint] at hsign
  simp only [Option.map_none, Option.getD_none, List.nil_append, if_true,
    List.singleton_append] at hsign
  simp only [scan?, hsign, takeWhile_digits hn.whole (hdot _), dropWhile_digits hn.whole (hdot _),
    scanFraction, List.takeWhile_append_of_pos hn.fraction,
    List.dropWhile_append_of_pos hn.fraction, if_neg hsome]
  refine ⟨_, _, rfl, ?_⟩
  simp [text, hexponent, hpoint]

/-- Behind digits anything can go on that a numeral has. -/
theorem exists_scan?_of_whole (hd : Reads digit) (hn : n.IsFormed digit) (rest : Text)
    (hexponent : n.exponent = none) (hpoint : n.point = false) :
    ∃ n' rest', scan? digit (n.text ++ rest) = some (n', rest') ∧ n.text <+: n'.text := by
  have hfraction := hn.point hpoint
  have hwhole : n.whole ≠ [] := hn.some_digit.elim id (absurd hfraction)
  have hsome : ∀ f, ¬ (n.whole ++ rest.takeWhile digit = [] ∧ f) := by
    intro f h
    exact hwhole (List.append_eq_nil_iff.1 h.1).1
  have hsign := hn.scanSign_text_append hd rest
  rw [hexponent, hpoint, hfraction] at hsign
  simp only [Option.map_none, Option.getD_none, List.nil_append, Bool.false_eq_true,
    if_false] at hsign
  simp only [scan?, hsign, List.takeWhile_append_of_pos hn.whole,
    List.dropWhile_append_of_pos hn.whole, if_neg (hsome _)]
  refine ⟨_, _, rfl, ?_⟩
  simp [text, hexponent, hpoint, hfraction]

/-- **A numeral is read, or one that it begins,** whatever follows it. -/
theorem exists_scan?_text_append (hd : Reads digit) (hn : n.IsFormed digit) (rest : Text) :
    ∃ n' rest', scan? digit (n.text ++ rest) = some (n', rest') ∧ n.text <+: n'.text := by
  cases hexponent : n.exponent with
  | some e => exact hn.exists_scan?_of_exponent hd rest hexponent
  | none =>
    cases hpoint : n.point with
    | true => exact hn.exists_scan?_of_point hd rest hexponent hpoint
    | false => exact hn.exists_scan?_of_whole hd rest hexponent hpoint

end IsFormed

/-- **The numeral that is read is the longest one** that a text begins with. -/
theorem length_text_le_of_scan? (hd : Reads digit) (h : scan? digit t = some (n, rest))
    {n' : Numeral} (hn' : n'.IsFormed digit) (hbegins : n'.text <+: t) :
    n'.text.length ≤ n.text.length := by
  obtain ⟨r, rfl⟩ := hbegins
  obtain ⟨n'', rest'', hscan, hlonger⟩ := hn'.exists_scan?_text_append hd r
  obtain ⟨rfl, rfl⟩ := Prod.mk.inj (Option.some.inj (h.symm.trans hscan))
  exact hlonger.length_le

/-! ## Where no numeral begins -/

/-- At most a sign, and behind it a digit or a point and a digit. -/
def Begins (digit : Char → Bool) (t : Text) : Prop :=
  ∃ (sign : Option Char) (point : Bool) (d : Char) (r : Text), (∀ c ∈ sign, c ∈ ['+', '-']) ∧
    digit d = true ∧ t = sign.toList ++ ((if point then ['.'] else []) ++ d :: r)

theorem IsFormed.begins (hn : n.IsFormed digit) (rest : Text) :
    Begins digit (n.text ++ rest) := by
  rw [text_append]
  cases hwhole : n.whole with
  | cons d whole =>
    have hdigit := hn.whole d (by simp [hwhole])
    exact ⟨n.sign, false, d, _, hn.sign, hdigit, rfl⟩
  | nil =>
    obtain ⟨d, fraction, hfraction⟩ :=
      List.exists_cons_of_ne_nil (hn.some_digit.elim (absurd hwhole) id)
    have hpoint : n.point = true := by
      rw [← Bool.not_eq_false]
      intro hp
      simp [hn.point hp] at hfraction
    have hdigit := hn.fraction d (by simp [hfraction])
    rw [hpoint, hfraction]
    exact ⟨n.sign, true, d, _, hn.sign, hdigit, rfl⟩

/-- A numeral begins with a sign, a point or a digit. -/
theorem Begins.head? (h : Begins digit t) :
    ∃ c ∈ t.head?, c ∈ ['+', '-', '.'] ∨ digit c = true := by
  obtain ⟨sign, point, d, r, hsign, hdigit, rfl⟩ := h
  cases sign with
  | some c =>
    refine ⟨c, rfl, .inl ?_⟩
    exact List.mem_append_left ['.'] (hsign c rfl)
  | none =>
    cases point with
    | true => exact ⟨'.', rfl, .inl (by simp)⟩
    | false => exact ⟨d, rfl, .inr hdigit⟩

theorem Begins.exists_isFormed (h : Begins digit t) :
    ∃ n : Numeral, n.IsFormed digit ∧ n.text <+: t := by
  obtain ⟨sign, point, d, r, hsign, hdigit, rfl⟩ := h
  cases point with
  | false =>
    refine ⟨⟨sign, [d], false, [], none⟩, ?_, r, by simp [text]⟩
    exact ⟨hsign, by simpa using hdigit, fun _ => rfl, by simp, .inl (by simp), by simp⟩
  | true =>
    refine ⟨⟨sign, [], true, [d], none⟩, ?_, r, by simp [text]⟩
    exact ⟨hsign, by simp, by simp, by simpa using hdigit, .inr (by simp), by simp⟩

/-- **No numeral is read only where none begins.** -/
theorem scan?_eq_none_iff (hd : Reads digit) : scan? digit t = none ↔ ¬ Begins digit t := by
  rw [← not_iff_not, not_not, ← ne_eq, ← Option.isSome_iff_ne_none]
  constructor
  · intro h
    obtain ⟨⟨n, rest⟩, hscan⟩ := Option.isSome_iff_exists.1 h
    rw [← text_append_of_scan? hscan]
    exact (isFormed_of_scan? hscan).begins rest
  · intro h
    obtain ⟨n, hn, r, rfl⟩ := h.exists_isFormed
    obtain ⟨n', rest', hscan, -⟩ := hn.exists_scan?_text_append hd r
    rw [hscan]
    rfl

/-- What was read is read again without what followed it. -/
theorem scan?_text_of_scan? (hd : Reads digit) (h : scan? digit t = some (n, rest)) :
    scan? digit n.text = some (n, []) := by
  have hscan := (isFormed_of_scan? h).scan?_text_append hd (ends_nil digit)
  rwa [List.append_nil] at hscan

end Numeral

end NetlistPrep
