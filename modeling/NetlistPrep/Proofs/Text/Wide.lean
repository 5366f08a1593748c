import NetlistPrep.Proofs.Outcome
import NetlistPrep.Proofs.Text.Classes
import NetlistPrep.Text.Lenient

/-!
# What units and octets tell about a wide text

* `CodePoint.ofUnits` puts units of UTF-16 together again. It gives back every wide text in which no
  two halves of a pair stand side by side (`CodePoint.ofUnits_flatMap_units`), so such texts can be
  told from their units.
* A text without surrogates is one of them, and may stand behind one
  (`WideText.unpaired_append_ofText`).
* `WideText.standIn_surrogate_apart`: a stand-in is nothing that a pass looks for.
* `Utf8.decodeLenient_of_decode_eq_ok`: what the strict reader takes, the lenient one reads alike.
-/

namespace NetlistPrep

namespace WideText

variable {w : WideText} {p q : CodePoint} {t : Text}

theorem unpaired_cons_cons_iff :
    unpaired (p :: q :: w) = true ↔
      (p.isHigh && q.isLow) = false ∧ unpaired (q :: w) = true := by
  rw [unpaired, Bool.and_eq_true, Bool.not_eq_true']

theorem unpaired_of_cons (h : unpaired (p :: w) = true) : unpaired w = true := by
  cases w with
  | nil => rfl
  | cons q w => exact (unpaired_cons_cons_iff.1 h).2

theorem unpaired_cons_ofText (p : CodePoint) (t : Text) : unpaired (p :: ofText t) = true := by
  induction t generalizing p with
  | nil => rfl
  | cons c t ih => exact unpaired_cons_cons_iff.2 ⟨Bool.and_false _, ih (.char c)⟩

theorem unpaired_ofText (t : Text) : unpaired (ofText t) = true := by
  cases t with
  | nil => rfl
  | cons c t => exact unpaired_cons_ofText (.char c) t

theorem unpaired_append_ofText (h : unpaired w = true) (t : Text) :
    unpaired (w ++ ofText t) = true := by
  induction w with
  | nil => exact unpaired_ofText t
  | cons p w ih =>
    cases w with
    | nil => exact unpaired_cons_ofText p t
    | cons q w =>
      obtain ⟨hpair, hrest⟩ := unpaired_cons_cons_iff.1 h
      exact unpaired_cons_cons_iff.2 ⟨hpair, ih hrest⟩

theorem toText?_ofText (t : Text) : toText? (ofText t) = some t := by
  induction t with
  | nil => rfl
  | cons c t ih => exact congrArg (Option.map (c :: ·)) ih

theorem toText?_eq_some_iff : toText? w = some t ↔ w = ofText t := by
  refine ⟨fun h => ?_, fun h => h ▸ toText?_ofText t⟩
  induction w generalizing t with
  | nil =>
    cases h
    rfl
  | cons p w ih =>
    cases p with
    | surrogate s => cases h
    | char c =>
      obtain ⟨t', ht', rfl⟩ := Option.map_eq_some_iff.1 h
      exact congrArg (.char c :: ·) (ih ht')

/-! ## Stand-ins -/

theorem firstStandIn_le_of_mem_standIn {s : Surrogate} {c : Char}
    (hc : c ∈ (CodePoint.surrogate s).standIn) : firstStandIn ≤ c.toNat := by
  rcases List.mem_cons.1 hc with rfl | hc
  · decide
  · rw [List.mem_singleton.1 hc, toNat_ofNat_firstStandIn_add]
    exact Nat.le_add_right firstStandIn s.val

/-- **A stand-in is nothing that a pass looks for:** no blank, no digit, no letter, and no other
character of ASCII. -/
theorem standIn_surrogate_apart {s : Surrogate} {c : Char}
    (hc : c ∈ (CodePoint.surrogate s).standIn) :
    Text.isBlank c = false ∧ Text.isDigit c = false ∧ Text.isLetter c = false ∧ 0x80 ≤ c.toNat := by
  have hfirst : 0x10F000 ≤ c.toNat := firstStandIn_le_of_mem_standIn hc
  have hblanks : ∀ range ∈ Text.blankRanges, range.2 < 0x10F000 := by decide
  have hdigits : ∀ z ∈ Text.zeros, z + 10 ≤ 0x10F000 := by decide
  refine ⟨eq_false_of_ne_true fun hblank => ?_, eq_false_of_ne_true fun hdigit => ?_,
    eq_false_of_ne_true fun hletter => ?_, by omega⟩
  · obtain ⟨range, hrange, -, hhigh⟩ := Text.exists_range_of_isBlank hblank
    have := hblanks range hrange
    omega
  · obtain ⟨z, hz, -, hhigh⟩ := Text.exists_zero_of_isDigit hdigit
    have := hdigits z hz
    omega
  · have := Text.toNat_of_isLetter hletter
    omega

end WideText

namespace CodePoint

/-- The numbers of characters leave out those of surrogates. -/
theorem range_of_char (c : Char) :
    c.toNat < 0xD800 ∨ 0xE000 ≤ c.toNat ∧ c.toNat < 0x110000 := by
  rcases c.valid with hlow | ⟨hhigh, hlimit⟩
  · exact .inl hlow
  · exact .inr ⟨hhigh, hlimit⟩

theorem value_inj {p q : CodePoint} (h : p.value = q.value) : p = q := by
  have hne : ∀ (c : Char) (s : Surrogate), c.toNat ≠ 0xD800 + s.val := fun c s => by
    have hc := range_of_char c
    have hs := s.isLt
    omega
  cases p with
  | char c =>
    cases q with
    | char d => rw [Char.toNat_inj.1 h]
    | surrogate s => exact absurd h (hne c s)
  | surrogate s =>
    cases q with
    | char d => exact absurd h.symm (hne d s)
    | surrogate s' => rw [Fin.ext (Nat.add_left_cancel h)]

/-! ## Units -/

/-- The unit of the first half of a pair. -/
def isHighUnit (u : UInt16) : Bool := 0xD800 ≤ u.toNat && u.toNat < 0xDC00

/-- The unit of the second half of a pair. -/
def isLowUnit (u : UInt16) : Bool := 0xDC00 ≤ u.toNat && u.toNat < 0xE000

/-- The code point that has one unit alone. -/
def ofUnit (u : UInt16) : CodePoint :=
  if h : 0xD800 ≤ u.toNat ∧ u.toNat < 0xE000 then .surrogate ⟨u.toNat - 0xD800, by omega⟩
  else .char (Char.ofNat u.toNat)

/-- The character that a pair of units stands for. -/
def ofPair (high low : UInt16) : Char :=
  Char.ofNat (0x10000 + (high.toNat - 0xD800) * 0x400 + (low.toNat - 0xDC00))

/-- Puts units together, two of them wherever they are the halves of a pair. -/
def ofUnits : List UInt16 → WideText
  | [] => []
  | [u] => [ofUnit u]
  | u :: v :: r =>
    if isHighUnit u && isLowUnit v then .char (ofPair u v) :: ofUnits r
    else ofUnit u :: ofUnits (v :: r)

/-- How the units of a code point are put together: it has one that gives it back, which is that of
a half of a pair if it is such a half, or else two that give it back as a pair. -/
theorem units_cases (p : CodePoint) :
    (∃ u, p.units = [u] ∧ ofUnit u = p ∧ isHighUnit u = p.isHigh ∧ isLowUnit u = p.isLow) ∨
      ∃ c u v, p = .char c ∧ p.units = [u, v] ∧ ofPair u v = c ∧ isHighUnit u = true ∧
        isLowUnit v = true := by
  cases p with
  | surrogate s =>
    have hs := s.isLt
    have hunit : (UInt16.ofNat (0xD800 + s.val)).toNat = 0xD800 + s.val :=
      UInt16.toNat_ofNat_of_lt' (by simp only [UInt16.size]; omega)
    refine .inl ⟨_, rfl, ?_, ?_, ?_⟩
    · rw [ofUnit, dif_pos (by omega)]
      exact congrArg surrogate (Fin.ext (by simp only [hunit]; omega))
    · simp only [isHighUnit, isHigh, hunit]
      grind
    · simp only [isLowUnit, isLow, hunit]
      grind
  | char c =>
    have hc := range_of_char c
    by_cases hlow : c.toNat < 0x10000
    · have hunit : (UInt16.ofNat c.toNat).toNat = c.toNat := UInt16.toNat_ofNat_of_lt' hlow
      refine .inl ⟨_, if_pos hlow, ?_, ?_, ?_⟩
      · rw [ofUnit, dif_neg (by omega), hunit, Char.ofNat_toNat]
      · simp only [isHighUnit, isHigh, hunit]
        grind
      · simp only [isLowUnit, isLow, hunit]
        grind
    · have hfirst : (UInt16.ofNat (0xD800 + (c.toNat - 0x10000) / 0x400)).toNat =
          0xD800 + (c.toNat - 0x10000) / 0x400 :=
        UInt16.toNat_ofNat_of_lt' (by simp only [UInt16.size]; omega)
      have hsecond : (UInt16.ofNat (0xDC00 + (c.toNat - 0x10000) % 0x400)).toNat =
          0xDC00 + (c.toNat - 0x10000) % 0x400 :=
        UInt16.toNat_ofNat_of_lt' (by simp only [UInt16.size]; omega)
      refine .inr ⟨c, _, _, rfl, if_neg hlow, ?_, ?_, ?_⟩
      · have hnumber : 0x10000 + (0xD800 + (c.toNat - 0x10000) / 0x400 - 0xD800) * 0x400 +
            (0xDC00 + (c.toNat - 0x10000) % 0x400 - 0xDC00) = c.toNat := by omega
        rw [ofPair, hfirst, hsecond, hnumber, Char.ofNat_toNat]
      · simp only [isHighUnit, hfirst, Bool.and_eq_true, decide_eq_true_eq]
        omega
      · simp only [isLowUnit, hsecond, Bool.and_eq_true, decide_eq_true_eq]
        omega

theorem exists_units_eq_cons (p : CodePoint) :
    ∃ u us, p.units = u :: us ∧ isLowUnit u = p.isLow := by
  rcases units_cases p with ⟨u, hunits, -, -, hlow⟩ | ⟨c, u, v, rfl, hunits, -, hhigh, -⟩
  · exact ⟨u, [], hunits, hlow⟩
  · refine ⟨u, [v], hunits, ?_⟩
    simp only [isHighUnit, Bool.and_eq_true, decide_eq_true_eq] at hhigh
    simp only [isLowUnit, isLow, Bool.and_eq_false_iff, decide_eq_false_iff_not]
    omega

/-- **Units are put together to the code points that they came from,** where no two of these are the
halves of a pair. -/
theorem ofUnits_flatMap_units {w : WideText} (h : w.unpaired = true) :
    ofUnits (w.flatMap units) = w := by
  induction w with
  | nil => rfl
  | cons p w ih =>
    have hrest := ih (WideText.unpaired_of_cons h)
    rcases units_cases p with ⟨u, hunits, hunit, hhigh, -⟩ | ⟨c, u, v, rfl, hunits, hpair, hu, hv⟩
    · rw [List.flatMap_cons, hunits, List.singleton_append]
      cases w with
      | nil => exact congrArg (fun q => [q]) hunit
      | cons q w =>
        obtain ⟨v, vs, hq, hlow⟩ := exists_units_eq_cons q
        have hapart : (isHighUnit u && isLowUnit v) = false := by
          rw [hhigh, hlow]
          exact (WideText.unpaired_cons_cons_iff.1 h).1
        rw [List.flatMap_cons, hq, List.cons_append] at hrest ⊢
        rw [ofUnits, if_neg (Bool.not_eq_true _ ▸ hapart), hunit, hrest]
    · rw [List.flatMap_cons, hunits, List.cons_append, List.singleton_append, ofUnits,
        if_pos (by rw [hu, hv]; rfl), hpair, hrest]

end CodePoint

namespace Utf8

open Outcome WideText

theorem lenientFrom_of_decodeFrom_eq_ok {start : Option Open} {pos : Nat} {octets : Octets}
    {t : Text} (h : decodeFrom pos start octets = .ok t) (seen : Octets) :
    lenientFrom (start.map fun o => (o, seen)) octets = ofText t := by
  induction octets generalizing start pos t seen with
  | nil =>
    cases start with
    | none =>
      cases h
      rfl
    | some o => cases h
  | cons b rest ih =>
    cases start with
    | none =>
      simp only [decodeFrom] at h
      split at h
      · rename_i c hlead
        obtain ⟨t', hrest, rfl⟩ := map_eq_ok_iff.1 h
        simpa [lenientFrom, lenientLead, hlead, ofText] using ih hrest []
      · rename_i o hlead
        simpa [lenientFrom, lenientLead, hlead] using ih h [b]
      · cases h
    | some o =>
      simp only [decodeFrom] at h
      split at h
      · rename_i c hnext
        obtain ⟨t', hrest, rfl⟩ := map_eq_ok_iff.1 h
        simpa [lenientFrom, hnext, ofText] using ih hrest []
      · rename_i o' hnext
        simpa [lenientFrom, hnext] using ih h (seen ++ [b])
      · cases h

/-- **What the strict reader takes, the lenient one reads alike.** -/
theorem decodeLenient_of_decode_eq_ok {octets : Octets} {t : Text} (h : decode octets = .ok t) :
    decodeLenient octets = ofText t :=
  lenientFrom_of_decodeFrom_eq_ok h []

end Utf8

end NetlistPrep
