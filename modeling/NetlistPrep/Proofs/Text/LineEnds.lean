import NetlistPrep.Proofs.Text.Split

/-!
# Line ends of files

A file is read with every carriage return that does not belong to a line feed turned into one. What
that does to the lines of a text depends on where carriage returns stand.

* `filter_lines_unifyLineEnds`: the lines with anything in them are the pieces between line feeds
  and carriage returns with anything in them.
* `lines_unifyLineEnds`: without a carriage return inside a line, the lines stay, and one that ends
  the text puts an empty line behind them.
* `ofText_unifyLineEnds_eq_iff`: the netlist of a text stays if and only if there is none inside a
  line.
-/

namespace NetlistPrep

namespace Text

variable {c : Char} {l t : Text}

theorem mem_of_mem_split {sep : Char → Bool} {piece : Text} (h : piece ∈ split sep t)
    (hc : c ∈ piece) : c ∈ t := by
  induction t generalizing piece with
  | nil => simp_all
  | cons d r ih =>
    obtain ⟨p, ps, hp⟩ := List.exists_cons_of_ne_nil (split_ne_nil sep r)
    have hrest : ∀ q ∈ p :: ps, c ∈ q → c ∈ r := fun q hq hcq => ih (hp ▸ hq) hcq
    simp only [split, hp] at h
    split at h
    · rcases List.mem_cons.1 h with rfl | h
      · simp at hc
      · exact List.mem_cons_of_mem _ (hrest _ h hc)
    · rcases List.mem_cons.1 h with rfl | h
      · rcases List.mem_cons.1 hc with rfl | hc
        · exact List.mem_cons_self
        · exact List.mem_cons_of_mem _ (hrest p List.mem_cons_self hc)
      · exact List.mem_cons_of_mem _ (hrest _ (List.mem_cons_of_mem _ h) hc)

theorem return_not_mem_unifyLineEnds (t : Text) : '\r' ∉ unifyLineEnds t := by
  fun_induction unifyLineEnds t with
  | case1 r ih => simpa using ih
  | case2 r hr ih => simpa using ih
  | case3 c r hpair hc ih => simpa [ih] using fun h : '\r' = c => hc h.symm
  | case4 => simp

theorem mem_of_mem_lines (h : l ∈ lines t) (hc : c ∈ l) : c ∈ t := by
  obtain ⟨piece, hp, rfl⟩ := List.mem_map.1 h
  exact mem_of_mem_split hp (mem_of_mem_dropReturn hc)

/-! ## The first line of a text -/

theorem lines_newline (r : Text) : lines ('\n' :: r) = [] :: lines r := by
  simp [lines, split, dropReturn]

theorem lines_return_newline (r : Text) : lines ('\r' :: '\n' :: r) = [] :: lines r := by
  simp [lines, split, dropReturn]

theorem dropReturn_cons (hc : c ≠ '\r') (t : Text) : dropReturn (c :: t) = c :: dropReturn t := by
  cases t with
  | nil => simp [dropReturn, hc]
  | cons d r =>
    unfold dropReturn
    simp only [List.getLast?_cons_cons, List.dropLast_cons_cons]
    split <;> rfl

theorem lines_cons (hn : c ≠ '\n') (hr : c ≠ '\r') (r : Text) :
    ∃ l ls, lines r = l :: ls ∧ lines (c :: r) = (c :: l) :: ls := by
  obtain ⟨p, ps, hp⟩ := List.exists_cons_of_ne_nil (split_ne_nil (· == '\n') r)
  refine ⟨dropReturn p, ps.map dropReturn, by simp [lines, hp], ?_⟩
  simp [lines, split, hn, hp, dropReturn_cons hr]

/-- A carriage return in front of anything but a line feed is inside a line. -/
theorem exists_line_of_return_cons (hc : c ≠ '\n') (r : Text) :
    ∃ l ∈ lines ('\r' :: c :: r), '\r' ∈ l := by
  obtain ⟨p, ps, hp⟩ := List.exists_cons_of_ne_nil (split_ne_nil (· == '\n') r)
  refine ⟨dropReturn ('\r' :: c :: p), by simp [lines, split, hc, hp], ?_⟩
  unfold dropReturn
  split <;> simp

/-! ## Unified line ends -/

/-- A line feed or a carriage return. -/
def isLineEnd (c : Char) : Bool := c == '\n' || c == '\r'

theorem filter_cons_congr {ps qs : List Text} (p : Text)
    (h : ps.filter (· ≠ []) = qs.filter (· ≠ [])) :
    (p :: ps).filter (· ≠ []) = (p :: qs).filter (· ≠ []) := by
  rw [List.filter_cons, List.filter_cons, h]

/-- The first piece stays, because it may be continued to the left; empty pieces behind it come and
go. -/
theorem split_unifyLineEnds (t : Text) :
    ∃ p ps qs, split (· == '\n') (unifyLineEnds t) = p :: ps ∧ split isLineEnd t = p :: qs ∧
      ps.filter (· ≠ []) = qs.filter (· ≠ []) := by
  fun_induction unifyLineEnds t with
  | case1 r ih =>
    obtain ⟨p, ps, qs, hu, ht, hrest⟩ := ih
    exact ⟨[], p :: ps, [] :: p :: qs, by simp [split, hu], by simp [split, isLineEnd, ht],
      filter_cons_congr p hrest⟩
  | case2 r hpair ih =>
    obtain ⟨p, ps, qs, hu, ht, hrest⟩ := ih
    exact ⟨[], p :: ps, p :: qs, by simp [split, hu], by simp [split, isLineEnd, ht],
      filter_cons_congr p hrest⟩
  | case3 c r hpair hc ih =>
    obtain ⟨p, ps, qs, hu, ht, hrest⟩ := ih
    by_cases hn : c = '\n'
    · exact ⟨[], p :: ps, p :: qs, by simp [split, hu, hn], by simp [split, isLineEnd, ht, hn],
        filter_cons_congr p hrest⟩
    · have hr : c ≠ '\r' := hc
      exact ⟨c :: p, ps, qs, by simp [split, hu, hn], by simp [split, isLineEnd, ht, hn, hr], hrest⟩
  | case4 => exact ⟨[], [], [], rfl, rfl, rfl⟩

/-- **Carriage returns end lines, too,** where line ends are unified. -/
theorem filter_lines_unifyLineEnds (t : Text) :
    (lines (unifyLineEnds t)).filter (· ≠ []) = (split isLineEnd t).filter (· ≠ []) := by
  have hlines : lines (unifyLineEnds t) = split (· == '\n') (unifyLineEnds t) := by
    refine List.map_congr_left (fun piece hp => dropReturn_of_return_not_mem fun hr => ?_) |>.trans
      (List.map_id _)
    exact return_not_mem_unifyLineEnds t (mem_of_mem_split hp hr)
  obtain ⟨p, ps, qs, hu, ht, hrest⟩ := split_unifyLineEnds t
  rw [hlines, hu, ht, filter_cons_congr p hrest]

/-- **Unifying line ends keeps the lines** of a text without a carriage return inside of them, but a
carriage return at the very end of the text makes an empty line of its own. -/
theorem lines_unifyLineEnds (h : ∀ l ∈ lines t, '\r' ∉ l) :
    lines (unifyLineEnds t) = lines t ∨ lines (unifyLineEnds t) = lines t ++ [[]] := by
  fun_induction unifyLineEnds t with
  | case1 r ih =>
    rw [lines_return_newline] at h ⊢
    rw [lines_newline]
    rcases ih (List.forall_mem_cons.1 h).2 with ih | ih <;> simp [ih]
  | case2 r hpair ih =>
    cases r with
    | nil => right; decide
    | cons c r =>
      have hc : c ≠ '\n' := fun he => hpair r (by rw [he])
      obtain ⟨l, hl, hr⟩ := exists_line_of_return_cons hc r
      exact absurd hr (h l hl)
  | case3 c r hpair hc ih =>
    by_cases hn : c = '\n'
    · subst hn
      rw [lines_newline] at h ⊢
      rw [lines_newline]
      rcases ih (List.forall_mem_cons.1 h).2 with ih | ih <;> simp [ih]
    · obtain ⟨l, ls, hr, hcr⟩ := lines_cons hn hc r
      obtain ⟨l', ls', hu, hcu⟩ := lines_cons hn hc (unifyLineEnds r)
      rw [hcr, List.forall_mem_cons, List.mem_cons, not_or] at h
      rw [hr, hu, List.forall_mem_cons] at ih
      rw [hcr, hcu]
      rcases ih ⟨h.1.2, h.2⟩ with ih | ih
      · exact .inl (by rw [(List.cons_eq_cons.1 ih).1, (List.cons_eq_cons.1 ih).2])
      · exact .inr (by simp [List.cons_eq_cons.1 ih])
  | case4 => exact .inl rfl

end Text

namespace Netlist

variable {d : Text}

/-- **A netlist file has the netlist of its text** if and only if no line of the text has a carriage
return inside of it. -/
theorem ofText_unifyLineEnds_eq_iff :
    ofText (Text.unifyLineEnds d) = ofText d ↔ ∀ l ∈ Text.lines d, '\r' ∉ l := by
  refine ⟨fun h l hl hr => ?_, fun h => ?_⟩
  · have hmem : l ∈ (ofText d).texts := by
      rw [texts_ofText, List.mem_filter]
      exact ⟨hl, by simpa using List.ne_nil_of_mem hr⟩
    rw [← h, texts_ofText, List.mem_filter] at hmem
    exact Text.return_not_mem_unifyLineEnds d (Text.mem_of_mem_lines hmem.1 hr)
  · refine ext_texts ?_
    rw [texts_ofText, texts_ofText]
    rcases Text.lines_unifyLineEnds h with h | h <;> simp [h]

end Netlist

end NetlistPrep
