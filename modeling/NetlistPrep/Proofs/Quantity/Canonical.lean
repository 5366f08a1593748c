import NetlistPrep.Proofs.Quantity.Edges

/-!
# Canonical texts of quantities

A quantity that is written, read and written again has the same text as before, except for the texts
at the edges between the units (`write_read_write`). `write_canonical` says which texts these are,
that they change once only, and which of them have a smaller unit than the one that fits.
-/

namespace NetlistPrep.Quantity

open Float.Model UnpackedFloat Double

variable {x : Float} {s : Sign}

/-! ## Quantities with a unit -/

theorem ratio_le_of_step (hx : x.isFinite = true) {small large : Text × Float} {r : ℕ}
    (h : (small, large) ∈ steps) (hratio : IsRatio (small, large) r)
    (hu : unitFor? x.abs = some small) :
    size x / size small.2 ≤ 10 ^ r + 10 ^ r / 2 ^ 50 := by
  obtain ⟨hsmall, hlarge⟩ := mem_units_of_mem_steps h
  have hhigh : size x < size large.2 := by
    rw [← not_le, ← le_abs_iff hx hlarge]
    intro hfits
    have hgreatest := (isLargest_of_unitFor? hu).greatest large hlarge hfits
    exact not_lt.2 ((unit_le_iff hlarge hsmall).1 hgreatest) (size_of_mem_steps h).1
  have hstep := (abs_le.1 hratio).2
  rw [div_le_iff₀ (isNormal_of_mem_units hsmall).1.size_pos]
  simp only at hstep
  linarith

theorem ratio_le_of_largest (x : Float) : size x / size largest.2 ≤ 35953863 / 2 * topPower := by
  rw [div_le_iff₀ (isNormal_of_mem_units largest_mem).1.size_pos]
  exact (size_lt x).le.trans safeSize_bounds.2.2.2

/-- The text of a quantity in a unit. Its digits write at least one. -/
theorem exists_text_of_unit (hx : x.isFinite = true) (hs : sign? x.toModel.unpack = some s)
    {unit : Text × Float} (hu : unitFor? x.abs = some unit)
    (hsafe : size x / size unit.2 ≤ safeSize) :
    ∃ n power q, Digits.IsNearest 5 q n power ∧ write x = text s n power unit.1 ∧
      q ≤ size x / size unit.2 + size x / size unit.2 / 2 ^ 52 ∧ 1 ≤ (n : ℚ) * 10 ^ power := by
  have hlargest := isLargest_of_unitFor? hu
  have hnormal := (isNormal_of_mem_units hlargest.mem).1
  have hone : 1 ≤ size x / size unit.2 :=
    (one_le_div hnormal.size_pos).2 ((le_abs_iff hx hlargest.mem).1 hlargest.le)
  have hnear := isNear_div hx hnormal hsafe
  have hhigh := (abs_le.1 (hnear.abs_sub_le_part (by linarith))).2
  have hq : 1 ≤ size (x / unit.2) := size_one ▸ hnear.le_size 1 (size_one ▸ hone)
  have hsign := (sign?_div_of_isNormal x hnormal).trans hs
  obtain ⟨n, power, hn, htext⟩ := Decimal.exists_general (zero_lt_one.trans_le hq) hsign
  have hdigits := hn.le_size (r := 0) (by rwa [zpow_zero])
  rw [zpow_zero] at hdigits
  exact ⟨n, power, _, hn, write_of_some hu htext, by linarith, hdigits⟩

/-- **A quantity with a unit** is written again as it was, unless its text is in the list. -/
theorem write_read_write_of_some (hx : x.isFinite = true) (hs : sign? x.toModel.unpack = some s)
    {unit : Text × Float} (hu : unitFor? x.abs = some unit) :
    write (read (write x)) = write x ∨ write x ∈ rewritings.map (·.1) := by
  rcases exists_step (isLargest_of_unitFor? hu).mem with ⟨next, hstep⟩ | rfl
  · obtain ⟨r, hr, hratio, hedge⟩ := exists_ratio hstep
    have hbound := ratio_le_of_step hx hstep hratio hu
    have hten : (0 : ℚ) < 10 ^ r := pow_pos (by decide) r
    have hthousand : (10 : ℚ) ^ r ≤ 10 ^ 3 := pow_le_pow_right₀ (by decide) hr
    have hsafe := safeSize_bounds.1
    obtain ⟨n, power, q, hn, htext, hq, hone⟩ := exists_text_of_unit hx hs hu (by linarith)
    have hle := size_le_of_nearest (r := r) hn (by rw [zpow_natCast]; linarith)
    rw [zpow_natCast] at hle
    rw [htext]
    rcases hle.eq_or_lt with heq | hless
    · obtain ⟨rfl, rfl⟩ := hn.eq_of_size_eq (r := r) (by rw [zpow_natCast, heq])
      exact hedge s
    · exact .inl (write_read_of_step hstep hr hratio hn hone hless s)
  · have hbound := ratio_le_of_largest x
    have hpos := topPower_pos
    have hsafe := safeSize_bounds.2.1
    obtain ⟨n, power, q, hn, htext, hq, hone⟩ := exists_text_of_unit hx hs hu (by linarith)
    have hle := size_le_topNumber hn (by linarith)
    rw [htext]
    exact .inl (write_read_of_largest hn hone hle s)

/-! ## Quantities without a unit -/

/-- A zero is written again as it was. -/
theorem write_read_write_of_zero (hx : x.toModel.unpack = .zero s) (hu : unitFor? x.abs = none) :
    write (read (write x)) = write x := by
  have htext : write x = text s 0 0 [] := by
    refine write_of_none hu ?_
    have hdigits : Digits.ofUnits 0 0 = ⟨['0'], 0⟩ := rfl
    simp only [Decimal.general, Style.writeFloat, ofFloat_eq, hx, ofUnpacked, hdigits, if_true]
    cases s <;> simp [minus]
  rw [htext, (edges_of_none s).1]

/-- **A quantity without a unit** is written again as it was, unless its text is in the list. -/
theorem write_read_write_of_none (hx : 0 < size x) (hs : sign? x.toModel.unpack = some s)
    (hu : unitFor? x.abs = none) :
    write (read (write x)) = write x ∨ write x ∈ rewritings.map (·.1) := by
  have hsmall := size_lt_of_none (isFinite_of_size_pos hx) hu
  have hleast := (abs_le.1 size_ends.1).2
  have hpos := leastPower_pos
  obtain ⟨-, hfar, hnear⟩ := edges_of_none s
  obtain ⟨n, power, hn, hgeneral⟩ := Decimal.exists_general hx hs
  have htext := write_of_none hu hgeneral
  have hle : (n : ℚ) * 10 ^ power ≤ leastPower :=
    size_le_of_nearest (r := -24) hn (show _ ≤ leastPower + leastPower / 2 ^ 48 by linarith)
  rw [htext]
  rcases hle.eq_or_lt with heq | hless
  · obtain ⟨rfl, rfl⟩ := hn.eq_of_size_eq (r := -24) heq
    exact .inr hnear
  · by_cases hedge : (n : ℚ) * 10 ^ power = 10 ^ (-318 : ℤ)
    · obtain ⟨rfl, rfl⟩ := hn.eq_of_size_eq hedge
      exact .inr hfar
    · exact .inl (write_read_of_none hx hs hu hn htext hless hedge)

/-! ## Canonical texts -/

/-- **What is written again** is the text that was written, unless that is in the list. -/
theorem write_read_write (hx : x.isFinite = true) :
    write (read (write x)) = write x ∨ write x ∈ rewritings.map (·.1) := by
  have hxf : x.toModel.unpack.isFinite = true := hx
  obtain ⟨s, hs⟩ := exists_sign? hx
  cases hu : unitFor? x.abs with
  | some unit => exact write_read_write_of_some hx hs hu
  | none =>
    cases hxu : x.toModel.unpack with
    | notANumber | infinity => simp [hxu, UnpackedFloat.isFinite] at hxf
    | zero t => exact .inl (write_read_write_of_zero hxu hu)
    | finite t m e hm =>
      have hpos : 0 < size x := by
        rw [size, hxu]
        exact magnitude_finite_pos t e hm
      exact write_read_write_of_none hpos hs hu

/-- A finite quantity is read back as a finite one. -/
theorem isFinite_read_write (hx : x.isFinite = true) : (read (write x)).isFinite = true := by
  have hscan : unitOf (write (read (write x))) ≠ none := by
    rcases write_read_write hx with hself | hmem
    · obtain ⟨n, unit, hwritten⟩ := exists_isWritten hx
      rw [hself, unitOf, hwritten.scan?_write]
      exact Option.some_ne_none unit
    · obtain ⟨p, hp, heq⟩ := List.mem_map.1 hmem
      rw [← heq, (isRewriting_of_mem hp).written]
      exact (isRewriting_of_mem hp).scans
  refine eq_true_of_ne_false fun hread => hscan ?_
  rw [unitOf, scan?_write_of_not_isFinite hread, Option.map_none]

/-- The unit of a text is the largest one that fits what the text stands for; it has none where none
fits. What a text stands for is what reading it gives: `1000z` is read as less than `1a`, so that
`z` is the largest unit that fits it. -/
def InLargestUnit (t : Text) : Prop :=
  ∃ unit, unitOf t = some unit ∧
    ((∃ divisor, IsLargest (read t).abs (unit, divisor)) ∨
      (unit = [] ∧ ∀ unit ∈ units, ¬ unit.2 ≤ (read t).abs))

/-- A text is written again in the largest unit that fits what it stands for. -/
theorem inLargestUnit_write_iff (hx : x.isFinite = true) :
    InLargestUnit (write x) ↔ unitOf (write x) = unitOf (write (read (write x))) := by
  obtain ⟨n, unit, hwritten⟩ := exists_isWritten hx
  obtain ⟨n', unit', hagain⟩ := exists_isWritten (isFinite_read_write hx)
  have hunit : unitOf (write x) = some unit := by rw [unitOf, hwritten.scan?_write]; rfl
  have hunit' : unitOf (write (read (write x))) = some unit' := by
    rw [unitOf, hagain.scan?_write]
    rfl
  rw [InLargestUnit, hunit', hunit]
  constructor
  · rintro ⟨unit, hsome, hlargest⟩
    rw [hsome]
    rcases hlargest with ⟨divisor, hlargest⟩ | ⟨rfl, hnone⟩ <;>
      rcases hagain.choice with ⟨divisor', hlargest', -⟩ | ⟨rfl, hnone', -⟩
    · exact congrArg (some ·.1) (hlargest.unique hlargest')
    · exact absurd hlargest.le (hnone' _ hlargest.mem)
    · exact absurd hlargest'.le (hnone _ hlargest'.mem)
    · rfl
  · intro hsame
    exact ⟨unit', hsame, hagain.choice.imp (fun ⟨divisor, hlargest, _⟩ => ⟨divisor, hlargest⟩)
      fun ⟨hempty, hnone, _⟩ => ⟨hempty, hnone⟩⟩

/-- **Written quantities are canonical but for a list of texts.** What was read back is written as
the same text if and only if the text is not in the list. Otherwise it is written as the list says,
and from then on the text stays the same. The texts whose digits were rounded up to the next unit
are the only ones that are not in the largest unit that fits what they stand for, that is, what they
are read as. -/
theorem write_canonical (hx : x.isFinite = true) :
    (write (read (write x)) = write x ↔ write x ∉ rewritings.map (·.1)) ∧
    (∀ p ∈ rewritings, write x = p.1 → write (read (write x)) = p.2) ∧
    write (read (write (read (write x)))) = write (read (write x)) ∧
    (InLargestUnit (write x) ↔ write x ∉ carried.map (·.1)) := by
  have hagain : ∀ p ∈ rewritings, write x = p.1 → write (read (write x)) = p.2 := by
    intro p hp htext
    rw [htext, (isRewriting_of_mem hp).written]
  rcases write_read_write hx with hself | hmem
  · have hnot : write x ∉ rewritings.map (·.1) := fun hmem => by
      obtain ⟨p, hp, htext⟩ := List.mem_map.1 hmem
      refine (isRewriting_of_mem hp).settled ?_
      rwa [← hagain p hp htext.symm, hself]
    refine ⟨iff_of_true hself hnot, hagain, by rw [hself, hself], ?_⟩
    rw [inLargestUnit_write_iff hx, hself]
    refine iff_of_true rfl fun hcarried => hnot ?_
    rw [rewritings, List.map_append]
    exact List.mem_append_right _ hcarried
  · obtain ⟨p, hp, htext⟩ := List.mem_map.1 hmem
    have hother := hagain p hp htext.symm
    have hsettled := (isRewriting_of_mem hp).settled
    refine ⟨iff_of_false (fun hself => hsettled ?_) (not_not_intro hmem), hagain, ?_, ?_⟩
    · rwa [← hother, hself]
    · rcases write_read_write (isFinite_read_write hx) with hself | hmem'
      · exact hself
      · exact absurd (hother ▸ hmem') hsettled
    · rw [inLargestUnit_write_iff hx, hother, ← htext]
      exact (isRewriting_of_mem hp).unit

/-- The one text of the list that has no unit before and after. -/
theorem write_canonical_denormal : Float.isFinite 1.000004e-318 = true ∧
    write 1.000004e-318 = "1e-318".toList ∧
    write (read (write 1.000004e-318)) = "9.99999e-319".toList ∧
    write (read "9.99999e-319".toList) = "9.99999e-319".toList ∧
    InLargestUnit "1e-318".toList := by
  have hx : Float.isFinite 1.000004e-318 = true := by decide +kernel
  have htext : write 1.000004e-318 = "1e-318".toList := by decide +kernel
  obtain ⟨-, hlist, hthird, hunit⟩ := write_canonical hx
  have hagain : write (read (write 1.000004e-318)) = "9.99999e-319".toList :=
    hlist ("1e-318".toList, "9.99999e-319".toList) (by decide +kernel) htext
  rw [hagain] at hthird
  rw [htext] at hunit
  exact ⟨hx, htext, hagain, hthird, hunit.2 (by decide +kernel)⟩

/-- A quantity that is not written again as it was, and whose unit is smaller than the largest one
that fits what its text stands for. -/
theorem not_every_text_is_canonical : Float.isFinite 999999.5 = true ∧
    write 999999.5 = "1000k".toList ∧ write (read (write 999999.5)) = "1M".toList ∧
    ¬ InLargestUnit (write 999999.5) := by
  have hall : Float.isFinite 999999.5 = true ∧ write 999999.5 = "1000k".toList ∧
      write (read (write 999999.5)) = "1M".toList ∧
      unitOf (write 999999.5) ≠ unitOf (write (read (write 999999.5))) := by decide +kernel
  obtain ⟨hx, htext, hagain, hunit⟩ := hall
  exact ⟨hx, htext, hagain, (inLargestUnit_write_iff hx).not.2 hunit⟩

end NetlistPrep.Quantity
