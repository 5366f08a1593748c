import NetlistPrep.Proofs.Recovery

/-!
# Attributes on the two sides of a blank

No attribute reaches over a blank: neither a key nor a value holds one. So what stands behind a
blank is looked at only where the text before it has no value for the key.

* `scan?_append_blank` is the numeral, `Attribute.scanKey?_append_blank` the attribute at the start
  of a text: what they read is read in the same way with a blank and more behind it.
* `Attribute.find?_append_blank` is the search along a whole line.
* `Attribute.find?_field_of_ne` and `Attribute.find?_append_fields` are the search in the fields
  that recovery writes: a field has a value for its own key only.
-/

namespace NetlistPrep

/-! ## Numerals -/

namespace Numeral

variable {digit : Char → Bool}

theorem takeWhile_append_blank {p : Char → Bool} (hp : p ' ' = false) (a b : Text) :
    (a ++ ' ' :: b).takeWhile p = a.takeWhile p := by
  rw [List.takeWhile_append, List.takeWhile_cons_of_neg (by simp [hp]), List.append_nil]
  split
  · rename_i hlen
    exact ((List.takeWhile_sublist _).eq_of_length hlen).symm
  · rfl

theorem dropWhile_append_blank {p : Char → Bool} (hp : p ' ' = false) (a b : Text) :
    (a ++ ' ' :: b).dropWhile p = a.dropWhile p ++ ' ' :: b := by
  rw [List.dropWhile_append, List.dropWhile_cons_of_neg (by simp [hp])]
  split
  · rename_i hnil
    rw [List.isEmpty_iff.1 hnil, List.nil_append]
  · rfl

theorem scanSign_append_blank (a b : Text) :
    scanSign (a ++ ' ' :: b) = ((scanSign a).1, (scanSign a).2 ++ ' ' :: b) := by
  cases a with
  | nil => rfl
  | cons c r =>
    simp only [List.cons_append, scanSign]
    split <;> rfl

theorem scanFraction_append_blank (hdigit : digit ' ' = false) (a b : Text) :
    scanFraction digit (a ++ ' ' :: b) =
      ((scanFraction digit a).1, (scanFraction digit a).2.1,
        (scanFraction digit a).2.2 ++ ' ' :: b) := by
  unfold scanFraction
  cases a with
  | nil => rfl
  | cons c r =>
    by_cases hc : c = '.'
    · subst hc
      simp only [List.cons_append, takeWhile_append_blank hdigit, dropWhile_append_blank hdigit]
    · simp [hc]

theorem scanExponent_append_blank (hdigit : digit ' ' = false) (a b : Text) :
    scanExponent digit (a ++ ' ' :: b) =
      ((scanExponent digit a).1, (scanExponent digit a).2 ++ ' ' :: b) := by
  cases a with
  | nil => rfl
  | cons mark r =>
    simp only [List.cons_append, scanExponent, scanSign_append_blank,
      takeWhile_append_blank hdigit, dropWhile_append_blank hdigit]
    split
    · split <;> rfl
    · rfl

/-- **A numeral ends in front of a blank.** -/
theorem scan?_append_blank (hdigit : digit ' ' = false) (a b : Text) :
    scan? digit (a ++ ' ' :: b) = (scan? digit a).map fun r => (r.1, r.2 ++ ' ' :: b) := by
  simp only [scan?, scanSign_append_blank, takeWhile_append_blank hdigit,
    dropWhile_append_blank hdigit, scanFraction_append_blank hdigit,
    scanExponent_append_blank hdigit]
  split <;> rfl

end Numeral

namespace Attribute

/-! ## Attributes -/

theorem scan?_append_blank (bare : Bool) (a b : Text) :
    scan? bare (a ++ ' ' :: b) = scan? bare a := by
  cases a with
  | nil => rfl
  | cons c r =>
    simp only [List.cons_append, scan?]
    rw [← List.cons_append, Numeral.scan?_append_blank (by decide)]
    cases Numeral.scan? Text.isAsciiDigit (c :: r) with
    | none => rfl
    | some found =>
      simp only [Option.map_some, Numeral.takeWhile_append_blank (p := Text.isLetter) (by decide)]

theorem scanKey?_append_blank {key : Text} (hkey : ' ' ∉ key) (a b : Text) :
    scanKey? key (a ++ ' ' :: b) = scanKey? key a := by
  have hblank : ∀ c ∈ (' ' :: b).head?, c ∉ key ++ ['='] := by
    simp [hkey]
  unfold scanKey?
  by_cases hp : key ++ ['='] <+: a
  · have hlength : key.length + 1 ≤ a.length := by
      simpa using hp.length_le
    rw [if_pos (List.isPrefixOf_iff_prefix.2 hp),
      if_pos (List.isPrefixOf_iff_prefix.2 (hp.trans (List.prefix_append _ _))),
      List.drop_append_of_le_length hlength, scan?_append_blank]
  · rw [if_neg (mt List.isPrefixOf_iff_prefix.1 hp), if_neg]
    exact fun h => hp (Text.prefix_of_prefix_append (List.isPrefixOf_iff_prefix.1 h) hblank)

theorem findFrom?_append_blank {key : Text} (hkey : ' ' ∉ key) (glued : Bool) (a b : Text) :
    findFrom? key glued (a ++ ' ' :: b) = (findFrom? key glued a).or (find? key b) := by
  induction a generalizing glued with
  | nil =>
    -- At the blank itself there is no key, and what follows goes on from no name.
    have hscan : scanKey? key (' ' :: b) = none := by
      rw [← List.nil_append (' ' :: b), scanKey?_append_blank hkey]
      simp [scanKey?]
    simp only [List.nil_append, findFrom?, hscan, ite_self, Option.none_or]
    rfl
  | cons c a ih =>
    simp only [List.cons_append, findFrom?, ih]
    rw [← List.cons_append, scanKey?_append_blank hkey]
    split <;> rfl

/-- **A blank keeps attributes apart:** what stands behind it counts where the key has no value
before it. -/
theorem find?_append_blank {key : Text} (hkey : ' ' ∉ key) (a b : Text) :
    find? key (a ++ ' ' :: b) = (find? key a).or (find? key b) :=
  findFrom?_append_blank hkey false a b

/-! ## Fields -/

/-- A word that may be the key of a field. -/
def IsName (key : Text) : Prop := key ≠ [] ∧ ∀ c ∈ key, Text.isNameChar c = true

instance (key : Text) : Decidable (IsName key) :=
  decidable_of_iff (key ≠ [] ∧ key.all Text.isNameChar = true) (by simp [IsName])

theorem IsName.not_mem {key : Text} (h : IsName key) {c : Char} (hc : Text.isNameChar c = false) :
    c ∉ key := by
  intro hm
  rw [h.2 c hm] at hc
  simp at hc

/-- A name in front of an equals sign is the key of what follows, or no key begins there. -/
theorem scanKey?_append_eq {key name : Text} (hkey : IsName key) (hname : '=' ∉ name) (t : Text) :
    scanKey? key (name ++ '=' :: t) =
      if key = name then scan? (countKeys.contains key) t else none := by
  unfold scanKey?
  split
  · rename_i hp
    obtain ⟨r, hr⟩ := List.isPrefixOf_iff_prefix.1 hp
    have hends : key = name := by
      have htake := congrArg (List.takeWhile (· != '=')) hr
      have hall : ∀ w : Text, '=' ∉ w → ∀ c ∈ w, (c != '=') = true :=
        fun w hw c hc => by simpa using fun he : c = '=' => hw (he ▸ hc)
      rwa [List.append_assoc, List.takeWhile_append_of_pos (hall key (hkey.not_mem (by decide))),
        List.takeWhile_append_of_pos (hall name hname), List.singleton_append,
        List.takeWhile_cons_of_neg (by simp), List.takeWhile_cons_of_neg (by simp),
        List.append_nil, List.append_nil] at htake
    subst hends
    simp
  · rename_i hp
    rw [if_neg]
    rintro rfl
    exact hp (List.isPrefixOf_iff_prefix.2 ⟨t, by simp⟩)

theorem findFrom?_eq_none_of_not_mem {key t : Text} (glued : Bool) (h : '=' ∉ t) :
    findFrom? key glued t = none :=
  Option.eq_none_iff_forall_ne_some.2 fun _ ha => h (eq_mem_of_findFrom? ha)

/-- Behind a name character no key begins up to the next character that is none. -/
theorem findFrom?_glued_append_eq {key name t : Text}
    (hname : ∀ c ∈ name, Text.isNameChar c = true) (ht : '=' ∉ t) :
    findFrom? key true (name ++ '=' :: t) = none := by
  induction name with
  | nil =>
    simp only [List.nil_append, findFrom?]
    exact findFrom?_eq_none_of_not_mem _ ht
  | cons c name ih =>
    have hc : Text.isNameChar c = true := hname c List.mem_cons_self
    simp only [List.cons_append, findFrom?, hc]
    exact ih fun d hd => hname d (List.mem_cons_of_mem _ hd)

/-- **A field has a value for its own key only.** -/
theorem find?_field_of_ne {key name t : Text} (hkey : IsName key) (hname : IsName name)
    (ht : '=' ∉ t) (hne : key ≠ name) : find? key (name ++ '=' :: t) = none := by
  have hscan := scanKey?_append_eq hkey (hname.not_mem (by decide)) t
  rw [if_neg hne] at hscan
  obtain ⟨c, rest, rfl⟩ := List.exists_cons_of_ne_nil hname.1
  have hc : Text.isNameChar c = true := hname.2 c List.mem_cons_self
  have hrest : ∀ d ∈ rest, Text.isNameChar d = true :=
    fun d hd => hname.2 d (List.mem_cons_of_mem _ hd)
  rw [List.cons_append] at hscan ⊢
  simp only [find?, findFrom?, Bool.false_eq_true, if_false, hscan, hc]
  exact findFrom?_glued_append_eq hrest ht

/-- The value that a key has in fields, the first one counting. -/
def findField? (key : Text) (fs : List (Text × Float)) : Option Attribute :=
  fs.findSome? fun f => find? key (f.1 ++ '=' :: Quantity.write f.2)

/-- **Fields behind a line are looked at one by one,** once the line itself has no value. -/
theorem find?_append_fields {key : Text} (hkey : ' ' ∉ key) (line : Text)
    (fs : List (Text × Float)) : find? key (line ++ fs.flatMap Recovery.fieldText) =
      (find? key line).or (findField? key fs) := by
  induction fs generalizing line with
  | nil => simp [findField?]
  | cons f fs ih =>
    rw [List.flatMap_cons, ← List.append_assoc, ih, Recovery.fieldText, find?_append_blank hkey,
      Option.or_assoc]
    congr 1
    unfold findField?
    rw [List.findSome?_cons]
    cases find? key (f.1 ++ '=' :: Quantity.write f.2) <;> rfl

theorem findField?_eq_none {key : Text} (hkey : IsName key) {fs : List (Text × Float)}
    (hfs : ∀ f ∈ fs, IsName f.1 ∧ key ≠ f.1) : findField? key fs = none := by
  refine List.findSome?_eq_none_iff.2 fun f hf => ?_
  obtain ⟨hname, hne⟩ := hfs f hf
  have heq : '=' ∉ Quantity.write f.2 := fun h => absurd (isFigure_of_mem_write h) (by decide)
  exact find?_field_of_ne hkey hname heq hne

end Attribute

end NetlistPrep
