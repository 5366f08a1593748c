import Mathlib.Data.List.Nodup
import NetlistPrep.Text

/-!
# Rows under keys

A row is a key with something under it. Where the keys are distinct, the order of the rows does not
matter: what stands under a key is the same (`lookup_eq_of_perm`), and so are the rows once they are
sorted by their keys (`mergeSort_key_eq_iff`). `Rows.Agree` says that two lists of rows have the
same keys with the same under each of them, and then they are the same up to order
(`agree_iff_perm`).

Rows of numbered signs are in a total order (`leBy_or_leBy`, `eq_of_leBy_of_leBy`).
-/

namespace NetlistPrep

namespace Rows

variable {α β : Type} {l l' : List (α × β)} {key : α} {value : β}

/-- Rows with the same keys and with the same under every key. -/
structure Agree (l l' : List (α × β)) : Prop where
  keys : ∀ key, key ∈ l.map (·.1) ↔ key ∈ l'.map (·.1)
  values : ∀ key value value', (key, value) ∈ l → (key, value') ∈ l' → value = value'

theorem Agree.mem (h : Agree l l') (hmem : (key, value) ∈ l) : (key, value) ∈ l' := by
  obtain ⟨⟨_, value'⟩, hmem', rfl⟩ := List.mem_map.1 ((h.keys key).1 (List.mem_map_of_mem hmem))
  rwa [h.values _ _ _ hmem hmem']

theorem Agree.symm (h : Agree l l') : Agree l' l :=
  ⟨fun key => (h.keys key).symm, fun key _ _ hmem hmem' => (h.values key _ _ hmem' hmem).symm⟩

/-- **Rows under distinct keys agree if and only if they are the same up to order.** -/
theorem agree_iff_perm (hl : (l.map (·.1)).Nodup) (hl' : (l'.map (·.1)).Nodup) :
    Agree l l' ↔ l.Perm l' := by
  rw [List.perm_ext_iff_of_nodup (.of_map _ hl) (.of_map _ hl')]
  constructor
  · exact fun h row => ⟨h.mem, h.symm.mem⟩
  · intro h
    refine ⟨fun key => ?_, fun key value value' hmem hmem' => ?_⟩
    · simp only [List.mem_map, h]
    · have hsame := List.inj_on_of_nodup_map hl' ((h _).1 hmem) hmem' rfl
      exact (Prod.mk.inj hsame).2

/-! ## Looking up -/

variable [BEq α] [LawfulBEq α]

theorem mem_of_lookup_eq_some (h : l.lookup key = some value) : (key, value) ∈ l := by
  obtain ⟨front, rest, rfl, -⟩ := List.lookup_eq_some_iff.1 h
  exact List.mem_append_right _ List.mem_cons_self

theorem lookup_eq_some_iff (hl : (l.map (·.1)).Nodup) :
    l.lookup key = some value ↔ (key, value) ∈ l := by
  refine ⟨mem_of_lookup_eq_some, fun h => ?_⟩
  obtain ⟨value', hvalue'⟩ := Option.isSome_iff_exists.1
    (List.lookup_isSome_iff.2 ⟨(key, value), h, beq_self_eq_true key⟩)
  have hsame := List.inj_on_of_nodup_map hl h (mem_of_lookup_eq_some hvalue') rfl
  rw [hvalue', (Prod.mk.inj hsame).2]

/-- **What stands under a key does not depend on the order of the rows.** -/
theorem lookup_eq_of_perm (hl : (l.map (·.1)).Nodup) (h : l.Perm l') :
    l.lookup key = l'.lookup key := by
  have hl' : (l'.map (·.1)).Nodup := (h.map _).nodup_iff.1 hl
  refine Option.ext fun value => ?_
  rw [lookup_eq_some_iff hl, lookup_eq_some_iff hl', h.mem_iff]

end Rows

namespace Text

/-! ## Sorting -/

variable {α β : Type} {number : α → Nat} {s t u : List α}

theorem leBy_cons_iff {a b : α} : leBy number (a :: s) (b :: t) = true ↔
    number a < number b ∨ number a = number b ∧ leBy number s t = true := by
  simp [leBy]

theorem leBy_of_leBy_of_leBy (hst : leBy number s t = true) (htu : leBy number t u = true) :
    leBy number s u = true := by
  induction s generalizing t u with
  | nil => rfl
  | cons a s ih =>
    cases t with
    | nil => cases hst
    | cons b t =>
      cases u with
      | nil => cases htu
      | cons c u =>
        rw [leBy_cons_iff] at hst htu ⊢
        rcases hst with hab | ⟨hab, hst⟩ <;> rcases htu with hbc | ⟨hbc, htu⟩
        · exact .inl (Nat.lt_trans hab hbc)
        · exact .inl (hbc ▸ hab)
        · exact .inl (hab ▸ hbc)
        · exact .inr ⟨hab.trans hbc, ih hst htu⟩

theorem leBy_or_leBy (s t : List α) : leBy number s t = true ∨ leBy number t s = true := by
  induction s generalizing t with
  | nil => exact .inl rfl
  | cons a s ih =>
    cases t with
    | nil => exact .inr rfl
    | cons b t =>
      rw [leBy_cons_iff, leBy_cons_iff]
      rcases Nat.lt_trichotomy (number a) (number b) with hab | hab | hba
      · exact .inl (.inl hab)
      · exact (ih t).imp (fun h => .inr ⟨hab, h⟩) fun h => .inr ⟨hab.symm, h⟩
      · exact .inr (.inl hba)

/-- Where signs have different numbers, two rows in both orders are the same. -/
theorem eq_of_leBy_of_leBy (hnumber : ∀ a b, number a = number b → a = b)
    (hst : leBy number s t = true) (hts : leBy number t s = true) : s = t := by
  induction s generalizing t with
  | nil =>
    cases t with
    | nil => rfl
    | cons b t => cases hts
  | cons a s ih =>
    cases t with
    | nil => cases hst
    | cons b t =>
      rw [leBy_cons_iff] at hst hts
      rcases hst with hab | ⟨hab, hst⟩
      · omega
      · rcases hts with hba | ⟨-, hts⟩
        · omega
        · rw [hnumber a b hab, ih hst hts]

theorem leBy_map (f : β → α) (s t : List β) :
    leBy number (s.map f) (t.map f) = leBy (fun b => number (f b)) s t := by
  induction s generalizing t with
  | nil => rfl
  | cons a s ih =>
    cases t with
    | nil => rfl
    | cons b t => rw [List.map_cons, List.map_cons, leBy, leBy, ih]

/-- **Rows under distinct keys are sorted into one order,** whatever order they came in. -/
theorem mergeSort_key_eq_iff {l l' : List (List α × β)}
    (hnumber : ∀ a b, number a = number b → a = b) (hl : (l.map (·.1)).Nodup) :
    (l.mergeSort fun a b => leBy number a.1 b.1) = (l'.mergeSort fun a b => leBy number a.1 b.1) ↔
      l.Perm l' := by
  constructor
  · intro h
    exact (List.mergeSort_perm l _).symm.trans (h ▸ List.mergeSort_perm l' _)
  · intro h
    have hsorted : ∀ l : List (List α × β), (l.mergeSort fun a b => leBy number a.1 b.1).Pairwise
        fun a b => leBy number a.1 b.1 = true :=
      List.pairwise_mergeSort (fun _ _ _ hab hbc => leBy_of_leBy_of_leBy hab hbc)
        fun a b => (Bool.or_eq_true _ _).mpr (leBy_or_leBy a.1 b.1)
    refine List.Perm.eq_of_pairwise (fun a b ha hb hab hba => ?_) (hsorted l) (hsorted l')
      ((List.mergeSort_perm l _).trans (h.trans (List.mergeSort_perm l' _).symm))
    rw [List.mem_mergeSort] at ha hb
    exact List.inj_on_of_nodup_map hl ha (h.mem_iff.2 hb) (eq_of_leBy_of_leBy hnumber hab hba)

end Text

end NetlistPrep
