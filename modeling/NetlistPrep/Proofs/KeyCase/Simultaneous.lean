import NetlistPrep.Proofs.KeyCase

/-!
# Keys in small letters, all at once

The replacements are made one after the other over what the ones before have left. All the same they
are one change of the line as it was given: the characters that lie inside a key in capitals
(`Covered`) become small, and the others stay.

A key begins with the only blank in it and ends with the only equals sign in it. So no key begins
inside another one, and two keys that begin at one place are the same. The line is gone through from
key to key (`keys_induction`), and the order of the replacements does not matter
(`lowerKeys_of_mem_iff`).
-/

namespace NetlistPrep.KeyCase

open Text

/-! ## No key meets another one -/

/-- Of words that do not begin one another, at most one begins a text. -/
theorem eq_of_begins {rs : List Replacement}
    (hrs : ∀ r ∈ rs, ∀ r' ∈ rs, r.1 <+: r'.1 → r = r') {r r' : Replacement} (hr : r ∈ rs)
    (hr' : r' ∈ rs) {t : Text} (h : r.1 <+: t) (h' : r'.1 <+: t) : r = r' := by
  rcases List.prefix_or_prefix_of_prefix h h' with hp | hp
  · exact hrs r hr r' hr' hp
  · exact (hrs r' hr' r hr hp).symm

theorem bare_apart : ∀ r ∈ bare, ∀ r' ∈ bare, r.1 <+: r'.1 → r = r' := by decide

theorem blank_not_mem_bare : ∀ b ∈ bare, ' ' ∉ b.1 := by decide

theorem exists_bare {r : Replacement} (hr : r ∈ standard) :
    ∃ b ∈ bare, r = (' ' :: b.1, ' ' :: b.2) := by
  rw [standard_eq_map_bare] at hr
  obtain ⟨b, hb, rfl⟩ := List.mem_map.1 hr
  exact ⟨b, hb, rfl⟩

theorem mem_standard_of_mem_bare {b : Replacement} (hb : b ∈ bare) :
    (' ' :: b.1, ' ' :: b.2) ∈ standard := by
  rw [standard_eq_map_bare]
  exact List.mem_map_of_mem hb

/-- No key begins behind the first character of a key. -/
theorem not_key_prefix_drop {r r' : Replacement} (hr : r ∈ standard) (hr' : r' ∈ standard) {k : Nat}
    (hk : k + 1 < r.1.length) (q : Text) : ¬ r'.1 <+: (r.1 ++ q).drop (k + 1) := by
  obtain ⟨b, hb, rfl⟩ := exists_bare hr
  obtain ⟨b', hb', rfl⟩ := exists_bare hr'
  rw [List.length_cons, Nat.add_lt_add_iff_right] at hk
  rw [List.cons_append, List.drop_succ_cons, List.drop_append_of_le_length (Nat.le_of_lt hk),
    List.drop_eq_getElem_cons hk, List.cons_append, List.cons_prefix_cons]
  rintro ⟨hblank, -⟩
  exact blank_not_mem_bare b hb (hblank ▸ List.getElem_mem hk)

/-- **Induction along the keys of a line:** from one key to the next, and character by character
where none begins. -/
theorem keys_induction {motive : Text → Prop} (nil : motive [])
    (key : ∀ r ∈ standard, ∀ q, motive q → motive (r.1 ++ q))
    (other : ∀ c r, (∀ k ∈ standard, ¬ k.1 <+: c :: r) → motive r → motive (c :: r))
    (t : Text) : motive t := by
  induction ht : t.length using Nat.strongRecOn generalizing t with
  | ind n ih =>
    subst ht
    cases t with
    | nil => exact nil
    | cons c r =>
      by_cases hnone : ∀ k ∈ standard, ¬ k.1 <+: c :: r
      · exact other c r hnone (ih _ (by simp) r rfl)
      · simp only [not_forall, not_not] at hnone
        obtain ⟨k, hk, q, hq⟩ := hnone
        have hlong : ∀ k ∈ standard, 0 < k.1.length := by decide
        have hlen : q.length < (c :: r).length := by
          have := hlong k hk
          rw [← hq, List.length_append]
          omega
        rw [← hq]
        exact key k hk q (ih _ hlen q rfl)

/-! ## What becomes of a line from key to key -/

theorem lowerStart_append {b : Replacement} (hb : b ∈ bare) (p : Text) :
    lowerStart (b.1 ++ p) = b.2 ++ p := by
  rcases lowerStart_cases (b.1 ++ p) with ⟨hnone, -⟩ | ⟨b', hb', q, hq, heq⟩
  · exact absurd (List.prefix_append b.1 p) (hnone b hb)
  · obtain rfl : b = b' :=
      eq_of_begins bare_apart hb hb' (List.prefix_append b.1 p) ⟨q, hq.symm⟩
    rw [heq, List.append_cancel_left hq]

/-- A key in capitals becomes small, and the line behind it is rewritten by itself. -/
theorem lowerKeys_append {r : Replacement} (hr : r ∈ standard) (q : Text) :
    lowerKeys standard (r.1 ++ q) = r.2 ++ lowerKeys standard q := by
  obtain ⟨b, hb, rfl⟩ := exists_bare hr
  obtain ⟨p, ps, hp⟩ := List.exists_cons_of_ne_nil (split_ne_nil (· == ' ') q)
  have hsplit : split (· == ' ') (' ' :: b.1 ++ q) = [] :: (b.1 ++ p) :: ps := by
    rw [List.cons_append, split_cons_sep, split_append_of_not_mem (blank_not_mem_bare b hb) hp]
  rw [lowerKeys_standard, lowerKeys_standard, mapBehind_of_split hsplit, mapBehind_of_split hp,
    List.map_cons, lowerStart_append hb, List.intercalate_cons_cons, intercalate_append_cons]
  rfl

/-- A character where no key in capitals begins stays. -/
theorem lowerKeys_cons {c : Char} {r : Text} (h : ∀ k ∈ standard, ¬ k.1 <+: c :: r) :
    lowerKeys standard (c :: r) = c :: lowerKeys standard r := by
  obtain ⟨p, ps, hp⟩ := List.exists_cons_of_ne_nil (split_ne_nil (· == ' ') r)
  rw [lowerKeys_standard, lowerKeys_standard, mapBehind_of_split hp]
  by_cases hc : c = ' '
  · subst hc
    have hr := intercalate_split ' ' r
    rw [hp] at hr
    have hstart : lowerStart p = p := by
      rw [lowerStart_eq_self_iff]
      intro b hb hprefix
      refine h _ (mem_standard_of_mem_bare hb) (List.cons_prefix_cons.2 ⟨rfl, ?_⟩)
      rw [← hr]
      exact (prefix_intercalate_iff (blank_not_mem_bare b hb)).2 hprefix
    rw [mapBehind_of_split (split_cons_sep ' ' r), hp, List.map_cons, hstart,
      List.intercalate_cons_cons]
    rfl
  · have hsplit : split (· == ' ') ([c] ++ r) = ([c] ++ p) :: ps :=
      split_append_of_not_mem (by simpa using Ne.symm hc) hp
    rw [← List.singleton_append, mapBehind_of_split hsplit, intercalate_append_cons]
    rfl

/-! ## Characters inside keys -/

/-- The character at a place of a line lies inside a key in capitals. -/
def Covered (t : Text) (i : Nat) : Prop :=
  ∃ r ∈ standard, ∃ k, k ≤ i ∧ i < k + r.1.length ∧ r.1 <+: t.drop k

theorem exists_range_iff_covered (t : Text) (i : Nat) : (∃ r ∈ standard,
    ∃ k ∈ List.range (i + 1), i < k + r.1.length ∧ r.1 <+: t.drop k) ↔ Covered t i := by
  simp only [Covered, List.mem_range, Nat.lt_succ_iff]

instance (t : Text) (i : Nat) : Decidable (Covered t i) :=
  decidable_of_iff _ (exists_range_iff_covered t i)

section Other

variable {c : Char} {r : Text} (h : ∀ k ∈ standard, ¬ k.1 <+: c :: r)
include h

theorem not_covered_cons_zero : ¬ Covered (c :: r) 0 := by
  rintro ⟨k, hk, j, hj, -, hp⟩
  obtain rfl : j = 0 := Nat.le_zero.1 hj
  exact h k hk hp

theorem covered_cons_succ_iff (i : Nat) : Covered (c :: r) (i + 1) ↔ Covered r i := by
  constructor
  · rintro ⟨k, hk, j, hj, hi, hp⟩
    cases j with
    | zero => exact absurd hp (h k hk)
    | succ j => exact ⟨k, hk, j, by omega, by omega, hp⟩
  · rintro ⟨k, hk, j, hj, hi, hp⟩
    exact ⟨k, hk, j + 1, by omega, by omega, hp⟩

end Other

section Key

variable {r : Replacement} (hr : r ∈ standard) (q : Text)
include hr

theorem covered_append_of_lt {i : Nat} (hi : i < r.1.length) : Covered (r.1 ++ q) i :=
  ⟨r, hr, 0, Nat.zero_le i, by omega, List.prefix_append r.1 q⟩

theorem covered_append_iff (i : Nat) : Covered (r.1 ++ q) (r.1.length + i) ↔ Covered q i := by
  constructor
  · rintro ⟨r', hr', k, hk, hi, hp⟩
    have hbehind : r.1.length ≤ k := by
      refine Nat.not_lt.1 fun hlt => ?_
      cases k with
      | zero =>
        -- At the same place there is the same key, which ends before.
        obtain rfl : r = r' := by
          obtain ⟨b, hb, rfl⟩ := exists_bare hr
          obtain ⟨b', hb', rfl⟩ := exists_bare hr'
          rw [List.drop_zero, List.cons_append, List.cons_prefix_cons] at hp
          rw [eq_of_begins bare_apart hb hb' (List.prefix_append b.1 q) hp.2]
        omega
      | succ k => exact not_key_prefix_drop hr hr' hlt q hp
    obtain ⟨j, rfl⟩ := Nat.exists_eq_add_of_le hbehind
    rw [List.drop_length_add_append] at hp
    exact ⟨r', hr', j, by omega, by omega, hp⟩
  · rintro ⟨r', hr', k, hk, hi, hp⟩
    refine ⟨r', hr', r.1.length + k, by omega, by omega, ?_⟩
    rwa [List.drop_length_add_append]

end Key

/-- **The characters inside keys become small, and all others stay.** -/
theorem lowerKeys_eq_mapIdx (t : Text) : lowerKeys standard t =
    t.mapIdx fun i c => if Covered t i then c.toLower else c := by
  induction t using keys_induction with
  | nil => rfl
  | key r hr q ih =>
    have hlower : ∀ r ∈ standard, r.2 = r.1.map Char.toLower := by decide
    rw [lowerKeys_append hr, ih, List.mapIdx_append, hlower r hr]
    congr 1
    · refine (List.mapIdx_eq_iff.2 fun i => ?_).symm
      rw [List.getElem?_map]
      refine Option.map_congr fun c hc => ?_
      have hi : i < r.1.length := (List.getElem?_eq_some_iff.1 hc).1
      rw [if_pos (covered_append_of_lt hr q hi)]
    · refine List.mapIdx_eq_mapIdx_iff.2 fun i hi => ?_
      simp only [Nat.add_comm i, covered_append_iff hr]
  | other c r h ih =>
    rw [lowerKeys_cons h, ih, List.mapIdx_cons, if_neg (not_covered_cons_zero h)]
    simp only [covered_cons_succ_iff h]

/-! ## The order of the replacements -/

theorem foldl_replaceStart_of_mem_iff {rs : List Replacement} (h : ∀ r, r ∈ rs ↔ r ∈ bare)
    (t : Text) : rs.foldl (fun t r => replaceStart r.1 r.2 t) t = lowerStart t := by
  rcases foldl_replaceStart_cases (fun r hr => (h r).1 hr) t with hnone | ⟨b, hb, q, rfl, heq⟩
  · have hstays := foldl_replaceStart_of_not_prefix hnone
    rw [hstays]
    exact (lowerStart_eq_self_iff.2 fun b hb => hnone b ((h b).2 hb)).symm
  · rw [heq, lowerStart_append ((h b).1 hb)]

/-- **Any table of the same replacements rewrites a line in the same way,** in whatever order and
however often they stand in it. -/
theorem lowerKeys_of_mem_iff {table : List Replacement} (h : ∀ r, r ∈ table ↔ r ∈ standard)
    (t : Text) : lowerKeys table t = lowerKeys standard t := by
  let rs := table.map fun r => (r.1.tail, r.2.tail)
  have hrs : ∀ r, r ∈ rs ↔ r ∈ bare := by
    intro r
    simp only [rs, bare, List.mem_map, h]
  have htable : table = rs.map fun r => (' ' :: r.1, ' ' :: r.2) := by
    rw [List.map_map]
    refine (List.map_id _).symm.trans (List.map_congr_left fun r hr => ?_)
    obtain ⟨b, -, rfl⟩ := exists_bare ((h r).1 hr)
    rfl
  have hblank : ∀ b ∈ bare, ' ' ∉ b.1 ∧ ' ' ∉ b.2 := by decide
  rw [htable, lowerKeys_cons_blank fun r hr => hblank r ((hrs r).1 hr), lowerKeys_standard]
  simp only [foldl_replaceStart_of_mem_iff hrs]

/-- **The replacements are one change of the line as it is given.** The characters inside keys in
capitals become small and all others stay; no key in capitals is left, so a second run changes
nothing; and the order of the replacements does not matter. -/
theorem lowerKeys_at_once (t : Text) :
    lowerKeys standard t = t.mapIdx (fun i c => if Covered t i then c.toLower else c) ∧
    (∀ r ∈ standard, ¬ r.1 <:+: lowerKeys standard t) ∧
    lowerKeys standard (lowerKeys standard t) = lowerKeys standard t ∧
    ∀ table : List Replacement, table.Perm standard →
      lowerKeys table t = lowerKeys standard t :=
  ⟨lowerKeys_eq_mapIdx t, (lowerKeys_eq_self_iff _).1 (lowerKeys_lowerKeys t),
    lowerKeys_lowerKeys t, fun _ h => lowerKeys_of_mem_iff (fun _ => h.mem_iff) t⟩

/-- The standard replacements from the last to the first. -/
theorem lowerKeys_at_once_reversed : standard.reverse.Perm standard ∧
    lowerKeys standard.reverse "M1 a W=1 FW=2 R= L=".toList =
      lowerKeys standard "M1 a W=1 FW=2 R= L=".toList :=
  have h : standard.reverse.Perm standard := List.reverse_perm standard
  ⟨h, (lowerKeys_at_once _).2.2.2 _ h⟩

/-- Keys side by side, a letter that belongs to none, and keys without a blank before them. -/
example : lowerKeys standard "M1 W= FW=W= L=xM=".toList = "M1 w= fw=W= l=xM=".toList := by
  decide

end NetlistPrep.KeyCase
