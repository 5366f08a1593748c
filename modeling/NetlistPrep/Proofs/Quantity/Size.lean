import NetlistPrep.Proofs.Decimal.Round
import NetlistPrep.Proofs.Double.Operations
import NetlistPrep.Proofs.Quantity.Sign

/-!
# Quantities by their size

What is written depends on the sign and the size of a quantity alone: the size decides the unit
(`unitFor?_of_step`), and a size next to a number of six digits shows these digits
(`general_of_close`). What is read is next to the number that was written (`read_text`).
-/

namespace NetlistPrep

open Float.Model UnpackedFloat

namespace Double

variable {x : Float}

theorem Canonical.neg {u : UnpackedFloat} (h : Canonical u) : Canonical u.neg := by
  cases h with
  | notANumber => exact .notANumber
  | infinity s => exact .infinity _
  | zero s => exact .zero _
  | subnormal s hm hhigh => exact .subnormal _ hm hhigh
  | normal s hm hlow hhigh helow hehigh => exact .normal _ hm hlow hhigh helow hehigh

theorem unpack_neg (x : Float) : (-x).toModel.unpack = x.toModel.unpack.neg :=
  unpack_pack (canonical_unpack x.toModel).neg

theorem exists_sign? (hx : x.isFinite = true) : ∃ s, sign? x.toModel.unpack = some s := by
  have hfinite : x.toModel.unpack.isFinite = true := hx
  revert hfinite
  cases x.toModel.unpack with
  | zero s | finite s => exact fun _ => ⟨s, rfl⟩
  | notANumber | infinity => simp [UnpackedFloat.isFinite]

theorem IsNear.neg {q : ℚ} (h : IsNear x q) : IsNear (-x) q := by
  have hfinite : x.toModel.unpack.isFinite = true := h.isFinite
  have hsize : size (-x) = size x := by
    rw [size, size, unpack_neg]
    cases x.toModel.unpack <;> rfl
  refine ⟨?_, hsize ▸ h.abs_sub_le, fun z hz => hsize ▸ h.le_size z hz⟩
  show (-x).toModel.unpack.isFinite = true
  rw [unpack_neg]
  revert hfinite
  cases x.toModel.unpack <;> exact id

end Double

open Double

/-- The number that a numeral is read as is next to the one that it writes. -/
theorem Numeral.isNear_value {n : Numeral} (h : n.size ≤ safeSize) : IsNear n.value n.size := by
  have hmagnitude := isNear_ofScientific h
  unfold value
  split
  · exact hmagnitude.neg
  · exact hmagnitude

/-- The minus sign, where there is one. -/
def minus (s : Sign) : Text := if s == .negative then ['-'] else []

namespace Decimal

variable {x : Float} {s : Sign}

theorem general_eq {m : ℕ} {e : ℤ} {hm : 0 < m} (hx : x.toModel.unpack = .finite s m e hm) :
    general x = minus s ++ Style.general.write
      (Digits.round 6 (Digits.quotient m e).1 (Digits.quotient m e).2) := by
  simp only [general, Style.writeFloat, ofFloat_eq, hx, ofUnpacked]
  rw [if_neg (show ¬ m = 0 by omega)]
  cases s <;> rfl

/-- **The digits of a double** are those of the nearest number of six digits. -/
theorem exists_general (hx : 0 < size x) (hs : sign? x.toModel.unpack = some s) :
    ∃ n unit, Digits.IsNearest 5 (size x) n unit ∧
      general x = minus s ++ Style.general.write (Digits.ofUnits n unit) := by
  obtain ⟨t, m, e, hm, hu⟩ := exists_of_size_pos hx
  rw [hu] at hs
  obtain rfl : t = s := Option.some.inj hs
  obtain ⟨hnum, hden⟩ := Digits.quotient_pos hm e
  obtain ⟨n, unit, hnearest, hround⟩ := Digits.exists_round hnum hden 5
  rw [Digits.quotient_eq] at hnearest
  refine ⟨n, unit, ?_, by rw [general_eq hu, hround]⟩
  rwa [size, hu]

variable {n : ℕ} {unit : ℤ}

/-- A double that is close to a number of six digits shows them. -/
theorem general_of_close (hx : 0 < size x) (hs : sign? x.toModel.unpack = some s)
    (hlow : 10 ^ 5 ≤ n) (hhigh : n < 10 ^ 6)
    (hclose : |size x - n * 10 ^ unit| < 10 ^ unit / 20) :
    general x = minus s ++ Style.general.write (Digits.ofUnits n unit) := by
  obtain ⟨t, m, e, hm, hu⟩ := exists_of_size_pos hx
  rw [hu] at hs
  obtain rfl : t = s := Option.some.inj hs
  rw [size, hu, magnitude, ← Digits.quotient_eq] at hclose
  rw [general_eq hu, Digits.round_of_close (Digits.quotient_pos hm e).2 hlow hhigh hclose]

/-- Half a unit is close enough where the power of ten is reached. -/
theorem general_of_le (hx : 0 < size x) (hs : sign? x.toModel.unpack = some s) (hhigh : n < 10 ^ 6)
    (hlow : 10 ^ 5 * 10 ^ unit ≤ size x) (hclose : |size x - n * 10 ^ unit| < 10 ^ unit / 2) :
    general x = minus s ++ Style.general.write (Digits.ofUnits n unit) := by
  obtain ⟨t, m, e, hm, hu⟩ := exists_of_size_pos hx
  rw [hu] at hs
  obtain rfl : t = s := Option.some.inj hs
  rw [size, hu, magnitude, ← Digits.quotient_eq] at hclose hlow
  rw [general_eq hu, Digits.round_of_le (Digits.quotient_pos hm e).2 hhigh hlow hclose]

end Decimal

namespace Quantity

/-! ## The unit of a size -/

/-- The first unit. -/
def least : Text × Float := (['y'], 1e-24)

/-- The last unit. -/
def largest : Text × Float := (['Y'], 1e24)

theorem least_mem : least ∈ units := List.mem_cons_self

theorem largest_mem : largest ∈ units := List.mem_of_getLast? rfl

/-- The sizes of the units ascend. -/
theorem pairwise_size_units : units.Pairwise fun a b => size a.2 < size b.2 := by
  decide +kernel

theorem size_mem_units {unit : Text × Float} (h : unit ∈ units) :
    size least.2 ≤ size unit.2 ∧ size unit.2 ≤ size largest.2 := by
  have hordered := pairwise_size_units
  have hfirst : units = least :: units.tail := rfl
  have hlast : units = units.dropLast ++ [largest] := rfl
  constructor
  · rw [hfirst] at h hordered
    rcases List.mem_cons.1 h with rfl | hmem
    · exact le_rfl
    · exact ((List.pairwise_cons.1 hordered).1 unit hmem).le
  · rw [hlast] at h hordered
    rcases List.mem_append.1 h with hmem | hmem
    · exact ((List.pairwise_append.1 hordered).2.2 unit hmem largest List.mem_cons_self).le
    · rw [List.mem_singleton.1 hmem]

theorem eq_of_size_eq {a b : Text × Float} (ha : a ∈ units) (hb : b ∈ units)
    (h : size a.2 = size b.2) : a = b := by
  have hnodup : (units.map fun unit => size unit.2).Nodup :=
    List.pairwise_map.2 (pairwise_size_units.imp ne_of_lt)
  exact List.inj_on_of_nodup_map hnodup ha hb h

theorem unit_le_iff {a b : Text × Float} (ha : a ∈ units) (hb : b ∈ units) :
    a.2 ≤ b.2 ↔ size a.2 ≤ size b.2 :=
  le_iff_size_le (isNormal_of_mem_units hb).1 (isNormal_of_mem_units ha).1

/-- There is one largest unit. -/
theorem IsLargest.unique {magnitude : Float} {a b : Text × Float} (ha : IsLargest magnitude a)
    (hb : IsLargest magnitude b) : a = b :=
  eq_of_size_eq ha.mem hb.mem (le_antisymm
    ((unit_le_iff ha.mem hb.mem).1 (hb.greatest a ha.mem ha.le))
    ((unit_le_iff hb.mem ha.mem).1 (ha.greatest b hb.mem hb.le)))

/-- Two units that follow one another. -/
def steps : List ((Text × Float) × (Text × Float)) := units.zip units.tail

/-- A member of a list is followed by another one, unless it is the last one. -/
theorem exists_mem_zip_tail {α : Type} {l : List α} {a : α} (h : a ∈ l) :
    (∃ b, (a, b) ∈ l.zip l.tail) ∨ l.getLast? = some a := by
  induction l with
  | nil => simp at h
  | cons c r ih =>
    cases r with
    | nil => exact .inr (congrArg some (List.mem_singleton.1 h).symm)
    | cons d r =>
      rcases List.mem_cons.1 h with rfl | h
      · exact .inl ⟨d, List.mem_cons_self⟩
      · rcases ih h with ⟨b, hb⟩ | hlast
        · exact .inl ⟨b, List.mem_cons_of_mem _ hb⟩
        · exact .inr (by rw [List.getLast?_cons_cons, hlast])

theorem exists_eq_append_of_mem_zip_tail {α : Type} {l : List α} {a b : α}
    (h : (a, b) ∈ l.zip l.tail) : ∃ front back, l = front ++ a :: b :: back := by
  induction l with
  | nil => simp at h
  | cons c r ih =>
    cases r with
    | nil => simp at h
    | cons d r =>
      rcases List.mem_cons.1 h with heq | h
      · obtain ⟨rfl, rfl⟩ := Prod.mk.inj heq
        exact ⟨[], r, rfl⟩
      · obtain ⟨front, back, hsplit⟩ := ih h
        exact ⟨c :: front, back, congrArg (c :: ·) hsplit⟩

variable {small large : Text × Float}

theorem mem_units_of_mem_steps (h : (small, large) ∈ steps) : small ∈ units ∧ large ∈ units :=
  ⟨(List.of_mem_zip h).1, List.mem_of_mem_tail (List.of_mem_zip h).2⟩

theorem exists_step {unit : Text × Float} (h : unit ∈ units) :
    (∃ next, (unit, next) ∈ steps) ∨ unit = largest :=
  (exists_mem_zip_tail h).imp_right fun hlast => (Option.some.inj hlast).symm

/-- No unit lies between two that follow one another. -/
theorem size_of_mem_steps (h : (small, large) ∈ steps) : size small.2 < size large.2 ∧
    ∀ other ∈ units, size other.2 ≤ size small.2 ∨ size large.2 ≤ size other.2 := by
  obtain ⟨front, back, hsplit⟩ := exists_eq_append_of_mem_zip_tail h
  have hordered := pairwise_size_units
  rw [hsplit, List.pairwise_append] at hordered
  obtain ⟨-, hbehind, hfront⟩ := hordered
  obtain ⟨hsmall, hlarge⟩ := List.pairwise_cons.1 hbehind
  refine ⟨hsmall large List.mem_cons_self, fun other hother => ?_⟩
  rw [hsplit, List.mem_append, List.mem_cons, List.mem_cons] at hother
  rcases hother with hother | rfl | rfl | hother
  · exact .inl (hfront other hother small List.mem_cons_self).le
  · exact .inl le_rfl
  · exact .inr le_rfl
  · exact .inr ((List.pairwise_cons.1 hlarge).1 other hother).le

variable {x : Float}

theorem le_abs_iff (hx : x.isFinite = true) {unit : Text × Float} (h : unit ∈ units) :
    unit.2 ≤ x.abs ↔ size unit.2 ≤ size x :=
  le_abs_iff_size_le hx (isNormal_of_mem_units h).1

/-- The largest fitting unit is the one that is used. -/
theorem unitFor?_eq_some (hx : x.isFinite = true) {unit : Text × Float} (h : unit ∈ units)
    (hle : size unit.2 ≤ size x)
    (hlargest : ∀ other ∈ units, size other.2 ≤ size x → size other.2 ≤ size unit.2) :
    unitFor? x.abs = some unit := by
  have hfits := (le_abs_iff hx h).2 hle
  cases hu : unitFor? x.abs with
  | none => exact absurd hfits (not_le_of_unitFor? hu unit h)
  | some found =>
    have hfound := isLargest_of_unitFor? hu
    have hle := (unit_le_iff h hfound.mem).1 (hfound.greatest unit h hfits)
    have hge := hlargest found hfound.mem ((le_abs_iff hx hfound.mem).1 hfound.le)
    rw [eq_of_size_eq h hfound.mem (le_antisymm hle hge)]

/-- **The size decides the unit:** one that it reaches while it does not reach the next one. -/
theorem unitFor?_of_step (hx : x.isFinite = true) (h : (small, large) ∈ steps)
    (hlow : size small.2 ≤ size x) (hhigh : size x < size large.2) :
    unitFor? x.abs = some small := by
  refine unitFor?_eq_some hx (mem_units_of_mem_steps h).1 hlow fun other hother hfits => ?_
  rcases (size_of_mem_steps h).2 other hother with hle | hge
  · exact hle
  · exact absurd (hge.trans hfits) (not_le.2 hhigh)

theorem unitFor?_of_largest (hx : x.isFinite = true) (hlow : size largest.2 ≤ size x) :
    unitFor? x.abs = some largest :=
  unitFor?_eq_some hx largest_mem hlow fun _ hother _ => (size_mem_units hother).2

theorem unitFor?_of_lt (hx : x.isFinite = true) (h : size x < size least.2) :
    unitFor? x.abs = none := by
  cases hu : unitFor? x.abs with
  | none => rfl
  | some found =>
    have hfound := isLargest_of_unitFor? hu
    have hfits := (le_abs_iff hx hfound.mem).1 hfound.le
    exact absurd ((size_mem_units hfound.mem).1.trans hfits) (not_le.2 h)

/-! ## Texts -/

/-- A number of units of ten to a power, with a sign and a unit letter. -/
def text (s : Sign) (n : ℕ) (power : ℤ) (letter : Text) : Text :=
  minus s ++ Style.general.write (Digits.ofUnits n power) ++ letter

theorem write_of_some {unit : Text × Float} {s : Sign} {n : ℕ} {power : ℤ}
    (hu : unitFor? x.abs = some unit)
    (h : Decimal.general (x / unit.2) = minus s ++ Style.general.write (Digits.ofUnits n power)) :
    write x = text s n power unit.1 := by
  simp only [write, hu, h, text]

theorem write_of_none {s : Sign} {n : ℕ} {power : ℤ} (hu : unitFor? x.abs = none)
    (h : Decimal.general x = minus s ++ Style.general.write (Digits.ofUnits n power)) :
    write x = text s n power [] := by
  simp only [write, hu, h, text, List.append_nil]

/-- What is not finite is not written as a numeral. -/
theorem scan?_write_of_not_isFinite (hx : x.isFinite = false) :
    scan? (write x) = none := by
  have hall : ∀ name ∈ ["nan", "inf", "-inf"].map String.toList, ∀ unit ∈ [] :: units.map (·.1),
      scan? (name ++ unit) = none := by decide
  unfold write
  cases hu : unitFor? x.abs with
  | some unit =>
    have hmem := (isLargest_of_unitFor? hu).mem
    have hdiv := Double.not_isFinite_div hx (isNormal_of_mem_units hmem).1
    exact hall _ (Decimal.general_of_not_isFinite hdiv) unit.1
      (List.mem_cons_of_mem _ (List.mem_map_of_mem hmem))
  | none =>
    have hnone := hall _ (Decimal.general_of_not_isFinite hx) [] List.mem_cons_self
    rwa [List.append_nil] at hnone

/-- **What is read is next to what is written,** times the unit. -/
theorem read_text (s : Sign) {n : ℕ} {power : ℤ} (hsafe : (n : ℚ) * 10 ^ power ≤ safeSize)
    {letter : Text} (h : letter ∈ [] :: units.map (·.1)) :
    ∃ v : Float, IsNear v (n * 10 ^ power) ∧ sign? v.toModel.unpack = some s ∧
      read (text s n power letter) = ((multiplier? letter).map (v * ·)).getD v := by
  obtain ⟨m, hm, htext, hsign, -, hsize⟩ :=
    Style.exists_numeral_write Style.general (Digits.isWritten_ofUnits n power)
  rw [Digits.size_ofUnits] at hsize
  have hwritten : text s n power letter = (m.signed (s == .negative)).text ++ letter := by
    rw [text, Numeral.text_signed hsign, htext]
    cases s <;> rfl
  refine ⟨(m.signed (s == .negative)).value, ?_, ?_, ?_⟩
  · rw [← hsize] at hsafe ⊢
    exact Numeral.isNear_value (n := m.signed (s == .negative)) hsafe
  · rw [Numeral.sign?_value]
    cases s <;> rfl
  · rw [hwritten, read, scan?_text_append_unit (hm.signed _) h]
    simp only [scale]
    cases multiplier? letter <;> rfl

end Quantity

end NetlistPrep
