import NetlistPrep.Proofs.Arithmetic
import NetlistPrep.Proofs.Quantity.Sign
import NetlistPrep.Proofs.Recovery.Again

/-!
# Recovered quantities that are read back

The value of an attribute has no sign, and it needs a unit or an exponent. So a recovered quantity
is read back from what is written behind the line if and only if it is finite and not zero.

* No recovered quantity is negative (`sign?_of_mem_fields`): what is read from attributes is
  positive, and recovery keeps the sign.
* `Attribute.exists_scan?_write` and `Attribute.scan?_write_eq_none` say which written quantities
  are values of attributes.
* `value?_suffix` puts them together; `not_every_field_is_read_back` is three lines whose finger
  width is not read back.
-/

namespace NetlistPrep

open Float.Model UnpackedFloat

/-! ## Signs -/

namespace Double

variable {x : Float}

theorem beq_negative {s : Option Sign} (h : s ≠ some .negative) :
    (s == some .negative) = false := by
  match s with
  | none | some .positive => rfl
  | some .negative => exact absurd rfl h

theorem ne_negative {s : Option Sign} (h : s = some .positive) : s ≠ some .negative := by
  rw [h]
  exact fun hs => Sign.noConfusion (Option.some.inj hs)

theorem sign?_of_pos (h : 0 < x) : sign? x.toModel.unpack = some .positive := by
  rcases exists_of_pos h with hu | ⟨m, e, hm, hu⟩ <;> rw [hu] <;> rfl

theorem beq_zero_iff : (x == 0) = true ↔ ∃ s, x.toModel.unpack = .zero s := by
  rw [Arithmetic.beq_zero_iff_compare]
  cases x.toModel.unpack with
  | infinity s | finite s => cases s <;> simp [UnpackedFloat.compare]
  | notANumber | zero => simp [UnpackedFloat.compare]

theorem sign?_div_ne_negative {y : Float} (hx : sign? x.toModel.unpack = some .positive)
    (hy : sign? y.toModel.unpack = some .positive) :
    sign? (x / y).toModel.unpack ≠ some .negative := by
  rcases sign?_div_cases x y with h | ⟨s, t, hs, ht, h⟩
  · simp [h]
  · rw [hx] at hs
    rw [hy] at ht
    refine ne_negative ?_
    rw [h, ← Option.some.inj hs, ← Option.some.inj ht]
    rfl

end Double

/-! ## Values -/

namespace Attribute

/-- The value of an attribute begins with a digit. -/
theorem exists_text_eq_cons_of_scan? {bare : Bool} {t : Text} {a : Attribute}
    (h : scan? bare t = some a) : ∃ c r, a.text = c :: r ∧ Text.isAsciiDigit c = true := by
  cases t with
  | nil => simp [scan?] at h
  | cons c r =>
    simp only [scan?] at h
    split at h
    · rename_i hc
      split at h
      · simp at h
      · rename_i n rest hscan
        obtain ⟨t, ht⟩ := (Numeral.sign_of_scan?_digit Numeral.reads_isAsciiDigit hc hscan).2
        split at h
        · obtain rfl := Option.some.inj h
          refine ⟨c, t ++ rest.takeWhile Text.isLetter, ?_, hc⟩
          rw [Attribute.text, ht, List.cons_append]
        · simp at h
    · simp at h

theorem exists_scan?_of_findFrom? {key t : Text} {glued : Bool} {a : Attribute}
    (h : findFrom? key glued t = some a) : ∃ r, scan? (countKeys.contains key) r = some a := by
  obtain ⟨r, -, hscan⟩ := exists_suffix_of_findFrom? h
  unfold scanKey? at hscan
  split at hscan
  · exact ⟨_, hscan⟩
  · simp at hscan

/-- **What is read from an attribute is positive.** -/
theorem sign?_of_value? {key line : Text} {x : Float} (h : value? key line = some x) :
    Double.sign? x.toModel.unpack = some .positive := by
  obtain ⟨hx, hnan⟩ := Option.filter_eq_some_iff.1 h
  obtain ⟨a, ha, rfl⟩ := Option.map_eq_some_iff.1 hx
  obtain ⟨r, hscan⟩ := exists_scan?_of_findFrom? ha
  obtain ⟨c, t, htext, hc⟩ := exists_text_eq_cons_of_scan? hscan
  rw [htext] at hnan ⊢
  exact Quantity.sign?_read hc (by simpa using hnan)

variable {x : Float}

/-- **A positive quantity is the value of an attribute,** and it is read back whole. -/
theorem exists_scan?_write (hx : x.isFinite = true)
    (hsign : Double.sign? x.toModel.unpack ≠ some .negative)
    (hzero : ∀ s, x.toModel.unpack ≠ .zero s) :
    ∃ a, scan? false (Quantity.write x) = some a ∧ a.text = Quantity.write x := by
  obtain ⟨n, unit, h⟩ := Quantity.exists_isWritten hx
  have hseam : ∀ unit ∈ [] :: Quantity.units.map (·.1), Numeral.Ends Text.isAsciiDigit unit ∧
      unit.takeWhile Text.isLetter = unit := by
    decide
  obtain ⟨hends, hletters⟩ := hseam unit h.unit_mem
  have hscan := Numeral.scan?_text_append Numeral.reads_isAsciiDigit h.numeral hends
  have hnone : n.sign = none := by
    rw [h.sign, Double.beq_negative hsign]
    rfl
  obtain ⟨c, r, htext, hc⟩ := h.numeral.exists_text_eq_cons
  have hdigit : Text.isAsciiDigit c = true := by
    rcases hc with hc | ⟨-, hc⟩
    · simp [hnone] at hc
    · exact hc
  refine ⟨⟨n, unit⟩, ?_, h.text.symm⟩
  have hmarked : (false || n.exponent.isSome || !unit.isEmpty) = true := by
    rcases h.marked hzero with hmarked | hmarked
    · simp [hmarked]
    · simp [hmarked]
  rw [h.text]
  rw [htext, List.cons_append] at hscan ⊢
  simp only [scan?, hdigit, if_true, hscan, hletters, hmarked]

theorem isNaN_read_write (hx : x.isFinite = true)
    (hsign : Double.sign? x.toModel.unpack ≠ some .negative) :
    (Quantity.read (Quantity.write x)).isNaN = false := by
  obtain ⟨n, unit, h⟩ := Quantity.exists_isWritten hx
  rw [h.read_write_eq]
  refine Double.not_isNaN_of_sign? (Quantity.sign?_scale ?_ unit)
  rw [h.sign, Double.beq_negative hsign]
  exact (Option.some_ne_none '-').symm

/-- No unit fits into zero. -/
theorem unitFor?_abs_zero {s : Sign} (h : x.toModel.unpack = .zero s) :
    Quantity.unitFor? x.abs = none := by
  refine List.find?_eq_none.2 fun unit hunit => ?_
  obtain ⟨m, e, hm, hu, -⟩ :=
    (Quantity.isNormal_of_mem_units (List.mem_reverse.1 hunit)).1.exists_eq
  rw [decide_eq_true_eq, Double.le_iff_compare, Double.unpack_abs, hu, h]
  simp [UnpackedFloat.abs, UnpackedFloat.compare]

/-- **Zero and what is not finite are no values of attributes.** Zero has neither a unit nor an
exponent, and the others do not begin with a digit. -/
theorem scan?_write_eq_none (hsign : Double.sign? x.toModel.unpack ≠ some .negative)
    (h : x.isFinite = false ∨ ∃ s, x.toModel.unpack = .zero s) :
    scan? false (Quantity.write x) = none := by
  rcases h with hx | ⟨s, hx⟩
  · have hfirst : ∀ c ∈ ['-', 'i', 'n'], Text.isAsciiDigit c = false := fun c hc =>
      eq_false_of_ne_true (List.any_eq_false.1 (by decide) c hc)
    unfold Quantity.write
    cases hu : Quantity.unitFor? x.abs with
    | some unit =>
      have hmem := (Quantity.isLargest_of_unitFor? hu).mem
      obtain ⟨c, r, htext, hc⟩ := Decimal.exists_general_eq_cons
        (Double.not_isFinite_div hx (Quantity.isNormal_of_mem_units hmem).1)
      simp only [htext, List.cons_append, scan?, hfirst c hc, Bool.false_eq_true, if_false]
    | none =>
      obtain ⟨c, r, htext, hc⟩ := Decimal.exists_general_eq_cons hx
      simp only [htext, scan?, hfirst c hc, Bool.false_eq_true, if_false]
  · have hpositive : s = .positive := by
      cases s with
      | positive => rfl
      | negative => exact absurd (by rw [hx]; rfl) hsign
    have hzero : Quantity.write x = ['0'] := by
      simp only [Quantity.write, unitFor?_abs_zero hx, Decimal.general, Style.writeFloat,
        Double.ofFloat_eq, hx, hpositive]
      decide
    rw [hzero]
    decide

end Attribute

/-! ## Fields -/

namespace Rectangle

theorem exists_ofLength_of_solve? {area pj : Float} {r : Rectangle} (h : solve? area pj = some r) :
    ∃ l, 0 < l ∧ r = ofLength area l := by
  unfold solve? at h
  split at h
  · simp at h
  · rename_i l1 l2 _
    have hmem : ∀ r ∈ ([l1, l2].filter fun l => 0 < l).map (ofLength area),
        ∃ l, 0 < l ∧ r = ofLength area l := by
      intro r hr
      obtain ⟨l, hl, rfl⟩ := List.mem_map.1 hr
      exact ⟨l, by simpa using (List.mem_filter.1 hl).2, rfl⟩
    split at h
    · simp at h
    · rename_i only hone
      obtain rfl := Option.some.inj h
      exact hmem _ (by simp [hone])
    · rename_i first second rest hmany
      obtain rfl := Option.some.inj h
      refine hmem _ ?_
      rw [hmany]
      split <;> simp

end Rectangle

namespace Recovery

open Attribute

theorem sign?_of_finger? {line : Text} {x : Float} (h : finger? line = some x) :
    Double.sign? x.toModel.unpack ≠ some .negative := by
  unfold finger? at h
  split at h
  · rename_i w l hw hl
    obtain rfl := Option.some.inj h
    have hpositive := sign?_of_value? hw
    unfold fingerWidth
    split
    · exact Double.ne_negative hpositive
    · rename_i fingers hfingers
      split
      · exact Double.ne_negative hpositive
      · exact Double.sign?_div_ne_negative hpositive (sign?_of_value? hfingers)
  · simp at h

theorem sign?_of_rectangle? {line : Text} {r : Rectangle} (h : rectangle? line = some r) :
    Double.sign? r.width.toModel.unpack ≠ some .negative ∧
      Double.sign? r.length.toModel.unpack ≠ some .negative := by
  obtain ⟨⟨area, pj⟩, houtline, hsolve⟩ := Option.bind_eq_some_iff.1 h
  obtain ⟨l, hl, rfl⟩ := Rectangle.exists_ofLength_of_solve? hsolve
  have hlength := Double.sign?_of_pos hl
  unfold outline? at houtline
  split at houtline
  · rename_i area' pj' harea hpj
    obtain ⟨rfl, rfl⟩ := Prod.mk.inj (Option.some.inj houtline)
    exact ⟨Double.sign?_div_ne_negative (sign?_of_value? harea) hlength, Double.ne_negative hlength⟩
  · simp at houtline

/-- **No recovered quantity is negative.** -/
theorem sign?_of_mem_fields {line : Text} {f : Text × Float} (h : f ∈ (ofLine line).fields) :
    Double.sign? f.2.toModel.unpack ≠ some .negative := by
  unfold fields at h
  rw [finger_ofLine, rectangle_ofLine] at h
  rcases List.mem_append.1 h with h | h
  · obtain ⟨x, hx, rfl⟩ := Option.map_eq_some_iff.1 (Option.mem_toList.1 h)
    exact sign?_of_finger? hx
  · split at h
    · rename_i r hr
      have hsigns := sign?_of_rectangle? hr
      simp only [List.mem_cons, List.not_mem_nil, or_false] at h
      rcases h with rfl | rfl
      · exact hsigns.1
      · exact hsigns.2
    · simp at h

theorem nodup_keys_fields (r : Recovery) : (r.fields.map (·.1)).Nodup := by
  obtain ⟨text, finger, rectangle, unsolved⟩ := r
  have hkeys : [['f', 'w'], ['w'], ['l']].Nodup := by decide
  cases finger <;> cases rectangle <;> simp [fields]

theorem isName_of_mem_fields {r : Recovery} {f : Text × Float} (h : f ∈ r.fields) :
    IsName f.1 ∧ countKeys.contains f.1 = false := by
  have hkeys : ∀ key ∈ [['f', 'w'], ['w'], ['l']],
      IsName key ∧ countKeys.contains key = false := by decide
  exact hkeys f.1 (key_of_mem_fields h)

end Recovery

namespace Attribute

/-- A field gives its own key the value that it holds. -/
theorem find?_field {key t : Text} (hkey : IsName key) (ht : '=' ∉ t) :
    find? key (key ++ '=' :: t) = scan? (countKeys.contains key) t := by
  have hscan := scanKey?_append_eq hkey (hkey.not_mem (by decide)) t
  rw [if_pos rfl] at hscan
  have hnames := hkey.2
  obtain ⟨c, rest, hcons⟩ := List.exists_cons_of_ne_nil hkey.1
  rw [hcons, List.cons_append] at hscan ⊢
  rw [hcons] at hnames
  have hc : Text.isNameChar c = true := hnames c List.mem_cons_self
  have hrest : findFrom? (c :: rest) true (rest ++ '=' :: t) = none :=
    findFrom?_glued_append_eq (fun d hd => hnames d (List.mem_cons_of_mem _ hd)) ht
  simp only [find?, findFrom?, Bool.false_eq_true, if_false, hscan, hc, hrest]
  cases scan? (countKeys.contains (c :: rest)) t <;> rfl

theorem equals_not_mem_write (x : Float) : '=' ∉ Quantity.write x :=
  fun h => absurd (isFigure_of_mem_write h) (by decide)

/-- **Among fields of different keys each key finds its own.** -/
theorem findField?_of_mem {key : Text} {v : Float} {fs : List (Text × Float)}
    (hnames : ∀ f ∈ fs, IsName f.1) (hkeys : (fs.map (·.1)).Nodup) (h : (key, v) ∈ fs) :
    findField? key fs = scan? (countKeys.contains key) (Quantity.write v) := by
  have hkey : IsName key := hnames _ h
  induction fs with
  | nil => simp at h
  | cons f fs ih =>
    have hlater : ∀ g ∈ fs, IsName g.1 := fun g hg => hnames g (List.mem_cons_of_mem _ hg)
    rw [List.map_cons, List.nodup_cons] at hkeys
    rw [findField?, List.findSome?_cons]
    rcases List.mem_cons.1 h with rfl | h
    · have hnone : findField? key fs = none := by
        refine findField?_eq_none hkey fun g hg => ⟨hlater g hg, fun heq => ?_⟩
        exact hkeys.1 (List.mem_map.2 ⟨g, hg, heq.symm⟩)
      rw [find?_field hkey (equals_not_mem_write v)]
      cases scan? (countKeys.contains key) (Quantity.write v) with
      | some a => rfl
      | none => exact hnone
    · have hne : key ≠ f.1 := fun heq => hkeys.1 (List.mem_map.2 ⟨(key, v), h, heq⟩)
      rw [find?_field_of_ne hkey (hnames f List.mem_cons_self) (equals_not_mem_write f.2) hne]
      exact ih hlater hkeys.2 h

end Attribute

namespace Recovery

open Attribute

theorem find?_suffix {line key : Text} {v : Float} (h : (key, v) ∈ (ofLine line).fields) :
    find? key ((ofLine line).text.drop line.length) = scan? false (Quantity.write v) := by
  obtain ⟨hname, hcount⟩ := isName_of_mem_fields h
  rw [text_ofLine, List.drop_left, ← List.nil_append (List.flatMap _ _),
    find?_append_fields (hname.not_mem (by decide)),
    findField?_of_mem (fun f hf => (isName_of_mem_fields hf).1) (nodup_keys_fields _) h, hcount]
  rfl

/-- **A recovered quantity is read back from what is written behind the line,** unless it is zero or
not finite: then nothing is read. -/
theorem value?_suffix {line key : Text} {v : Float} (h : (key, v) ∈ (ofLine line).fields) :
    value? key ((ofLine line).text.drop line.length) =
      if v.isFinite && !(v == 0) then some (Quantity.read (Quantity.write v)) else none := by
  have hsign := sign?_of_mem_fields h
  rw [value?, find?_suffix h]
  split
  · rename_i hv
    obtain ⟨hfinite, hzero⟩ := Bool.and_eq_true_iff.1 hv
    have hnonzero : ∀ s, v.toModel.unpack ≠ .zero s := by
      intro s hs
      rw [Double.beq_zero_iff.2 ⟨s, hs⟩] at hzero
      simp at hzero
    obtain ⟨a, hscan, htext⟩ := exists_scan?_write hfinite hsign hnonzero
    rw [hscan, Option.map_some, htext, Option.filter_some, isNaN_read_write hfinite hsign]
    rfl
  · rename_i hv
    have hnone : v.isFinite = false ∨ ∃ s, v.toModel.unpack = .zero s := by
      rw [← Double.beq_zero_iff]
      revert hv
      cases v.isFinite <;> cases v == 0 <;> simp
    rw [scan?_write_eq_none hsign hnone]
    rfl

/-- A width that is smaller than every unit is written with an exponent, and read back. -/
theorem value?_suffix_tiny :
    (['f', 'w'], 1e-30) ∈ (ofLine "M1 w=1e-30 l=1u".toList).fields ∧
      (ofLine "M1 w=1e-30 l=1u".toList).text = "M1 w=1e-30 l=1u fw=1e-30".toList ∧
      value? ['f', 'w']
        ((ofLine "M1 w=1e-30 l=1u".toList).text.drop "M1 w=1e-30 l=1u".toList.length) =
          some 1e-30 := by
  have hfields : (ofLine "M1 w=1e-30 l=1u".toList).fields = [(['f', 'w'], 1e-30)] := by
    decide +kernel
  have hmem : (['f', 'w'], 1e-30) ∈ (ofLine "M1 w=1e-30 l=1u".toList).fields := by
    rw [hfields]
    exact List.mem_singleton_self _
  exact ⟨hmem, by decide +kernel, (value?_suffix hmem).trans (by decide +kernel)⟩

/-- Not every recovered quantity is read back: no width of zero, no infinite one, and none that is
no number. -/
theorem not_every_field_is_read_back :
    ((ofLine "M1 w=0u l=1u".toList).text = "M1 w=0u l=1u".toList ++ " fw=0".toList ∧
        (ofLine "M1 w=0u l=1u".toList).fields.map (·.1) = [['f', 'w']] ∧
        value? ['f', 'w'] " fw=0".toList = none) ∧
      ((ofLine "M1 w=1e400 l=1u".toList).text = "M1 w=1e400 l=1u".toList ++ " fw=infY".toList ∧
        (ofLine "M1 w=1e400 l=1u".toList).fields.map (·.1) = [['f', 'w']] ∧
        value? ['f', 'w'] " fw=infY".toList = none) ∧
      ((ofLine "M1 w=1e400 l=1u fingers=1e400".toList).text =
          "M1 w=1e400 l=1u fingers=1e400".toList ++ " fw=nan".toList ∧
        (ofLine "M1 w=1e400 l=1u fingers=1e400".toList).fields.map (·.1) = [['f', 'w']] ∧
        value? ['f', 'w'] " fw=nan".toList = none) := by
  decide +kernel

end Recovery

end NetlistPrep
