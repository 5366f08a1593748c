import NetlistPrep.Preamble.Marker
import NetlistPrep.Proofs.Preamble
import NetlistPrep.Proofs.Text.Pattern

/-!
# Sections of any kind

Markers may begin one another and may be repeated, so a default line that comes in decides about the
sections behind it. `Section.IsPutIn` says which sections come in without going through the lines in
turn, and `Netlist.ensureSections_puts_in` that these come in and no others, once and for all.

A marker is looked for by a written pattern. `Section.exists_pattern?` says that this pattern is the
marker itself, whatever its characters mean in other patterns.
-/

namespace NetlistPrep

/-! ## Markers as patterns -/

namespace Pattern

theorem ofSource?_escaped {c : Char} (hc : c ∈ escaped) (r : Text) :
    ofSource? ('\\' :: c :: r) = (ofSource? r).map (seq (char (· == c))) := by
  have hplain : ∀ c ∈ escaped, ¬ (Text.isLetter c || Text.isAsciiDigit c) = true :=
    List.any_eq_false.1 (by decide)
  rw [ofSource?, eq_false_of_ne_true (hplain c hc)]
  rfl

theorem ofSource?_plain {c : Char} (hc : c ∉ escaped) (r : Text) :
    ofSource? (c :: r) = (ofSource? r).map (seq (char (· == c))) := by
  have hoperators : ∀ c ∈ operators, decide (c ∈ escaped) = true :=
    List.all_eq_true.1 (by decide)
  have hback : c ≠ '\\' := fun h => hc (h ▸ by decide)
  have hstart : c ≠ '^' := fun h => hc (h ▸ by decide)
  rw [ofSource?, if_neg fun hc' => hc (of_decide_eq_true (hoperators c hc'))]
  · exact fun _ _ h => absurd h hback
  · exact hstart

/-- **An escaped text is read as the word that it is.** -/
theorem ofSource?_escape (t : Text) : ofSource? (escape t) = some (word t) := by
  induction t with
  | nil => rfl
  | cons c r ih =>
    rw [escape, List.flatMap_cons]
    by_cases hc : c ∈ escaped
    · rw [if_pos hc]
      show ofSource? ('\\' :: c :: escape r) = _
      rw [ofSource?_escaped hc, ih]
      rfl
    · rw [if_neg hc]
      show ofSource? (c :: escape r) = _
      rw [ofSource?_plain hc, ih]
      rfl

theorem isSome_match?_start_word (w t : Text) :
    ((seq start (word w)).match? t).isSome = true ↔ w <+: t := by
  rw [match?, start, first?_seq_notBehind, Option.any_none, if_neg Bool.false_ne_true, first?,
    ways_word, ← List.isPrefixOf_iff_prefix]
  split <;> simp_all

end Pattern

namespace Section

/-- **The pattern of a section matches the lines that begin with its marker.** -/
theorem exists_pattern? (s : Section) :
    ∃ p, s.pattern? = some p ∧ ∀ t, (p.match? t).isSome = true ↔ s.marker <+: t := by
  refine ⟨.seq .start (.word s.marker), ?_, Pattern.isSome_match?_start_word s.marker⟩
  simp only [pattern?, Pattern.ofSource?, Pattern.ofSource?_escape]
  rfl

/-! ## Which sections come in -/

/-- The places of the sections that come in: those that neither a line begins nor the default line
of a section that comes in before. -/
structure IsPutIn (sections : List Section) (ts : List Text) (places : List Nat) : Prop where
  increasing : places.Pairwise (· < ·)
  mem_iff : ∀ i, i ∈ places ↔ ∃ s, sections[i]? = some s ∧ ¬ s.Begins ts ∧
    ∀ j ∈ places, j < i → ∀ s', sections[j]? = some s' → ¬ s.marker <+: s'.defaultLine

/-- The default lines of the sections at some places. -/
def defaultsAt (sections : List Section) (places : List Nat) : List Text :=
  places.filterMap fun i => (sections[i]?).map (·.defaultLine)

variable {s : Section} {sections : List Section} {ts : List Text} {places : List Nat}

theorem begins_cons {t : Text} : s.Begins (t :: ts) ↔ s.marker <+: t ∨ s.Begins ts := by
  simp [Begins]

theorem defaultsAt_cons_map_succ (s : Section) (sections : List Section) (places : List Nat) :
    defaultsAt (s :: sections) (places.map (· + 1)) = defaultsAt sections places := by
  rw [defaultsAt, List.filterMap_map]
  rfl

theorem pairwise_map_succ (h : places.Pairwise (· < ·)) :
    (places.map (· + 1)).Pairwise (· < ·) :=
  List.pairwise_map.2 (h.imp fun hlt => Nat.add_lt_add_right hlt 1)

theorem IsPutIn.cons_of_begins (hs : s.Begins ts) (h : IsPutIn sections ts places) :
    IsPutIn (s :: sections) ts (places.map (· + 1)) where
  increasing := pairwise_map_succ h.increasing
  mem_iff i := by
    cases i with
    | zero => simp [hs]
    | succ i => simpa [Nat.succ_inj] using h.mem_iff i

theorem IsPutIn.cons_of_not_begins (hs : ¬ s.Begins ts)
    (h : IsPutIn sections (s.defaultLine :: ts) places) :
    IsPutIn (s :: sections) ts (0 :: places.map (· + 1)) where
  increasing := List.pairwise_cons.2 ⟨by simp, pairwise_map_succ h.increasing⟩
  mem_iff i := by
    cases i with
    | zero => simp [hs]
    | succ i =>
      have hi := h.mem_iff i
      simp only [begins_cons, not_or] at hi
      simp [hi, and_assoc, and_left_comm]

theorem IsPutIn.begins (hbegins : ∀ s ∈ sections, s.marker <+: s.defaultLine)
    (h : IsPutIn sections ts places) :
    ∀ s ∈ sections, s.Begins ((defaultsAt sections places).reverse ++ ts) := by
  intro s hs
  obtain ⟨i, hi⟩ := List.mem_iff_getElem?.1 hs
  have hline : ∀ j ∈ places, ∀ s', sections[j]? = some s' →
      s'.defaultLine ∈ (defaultsAt sections places).reverse := by
    intro j hj s' hs'
    rw [List.mem_reverse]
    exact List.mem_filterMap.2 ⟨j, hj, by rw [hs', Option.map_some]⟩
  rw [begins_append]
  by_cases hts : s.Begins ts
  · exact .inr hts
  left
  by_cases hfirst : ∀ j ∈ places, j < i → ∀ s', sections[j]? = some s' →
      ¬ s.marker <+: s'.defaultLine
  · have hin : i ∈ places := (h.mem_iff i).2 ⟨s, hi, hts, hfirst⟩
    exact ⟨s.defaultLine, hline i hin s hi, hbegins s hs⟩
  · -- A section that stays out is begun by a default line that came in before.
    simp only [Classical.not_forall, Decidable.not_not] at hfirst
    obtain ⟨j, hj, -, s', hs', hprefix⟩ := hfirst
    exact ⟨s'.defaultLine, hline j hj s' hs', hprefix⟩

end Section

/-! ## What a call does -/

namespace Netlist

open Section

variable {sections : List Section}

theorem ensureSections_of_begins {n : Netlist} (h : ∀ s ∈ sections, s.Begins n.texts) :
    ensureSections sections n = (n, .ok []) := by
  induction sections with
  | nil => rfl
  | cons s rest ih =>
    rw [ensureSections, if_pos (isIn_iff.2 (h s List.mem_cons_self))]
    exact ih fun s' hs' => h s' (List.mem_cons_of_mem _ hs')

theorem exists_isPutIn (hlines : ∀ s ∈ sections, '\n' ∉ s.defaultLine) (n : Netlist) :
    ∃ places, IsPutIn sections n.texts places ∧
      (ensureSections sections n).1.texts = (defaultsAt sections places).reverse ++ n.texts ∧
      (ensureSections sections n).2 = .ok (defaultsAt sections places) := by
  induction sections generalizing n with
  | nil => exact ⟨[], ⟨.nil, by simp⟩, rfl, rfl⟩
  | cons s rest ih =>
    have hrest : ∀ s' ∈ rest, '\n' ∉ s'.defaultLine :=
      fun s' hs' => hlines s' (List.mem_cons_of_mem _ hs')
    rw [ensureSections]
    by_cases hs : s.Begins n.texts
    · obtain ⟨places, hplaces, htexts, hanswer⟩ := ih hrest n
      refine ⟨_, hplaces.cons_of_begins hs, ?_⟩
      rw [if_pos (isIn_iff.2 hs), defaultsAt_cons_map_succ]
      exact ⟨htexts, hanswer⟩
    · let l : Line := ⟨s.defaultLine, hlines s List.mem_cons_self⟩
      have hl : Line.ofText s.defaultLine = .ok l := Line.ofText_eq_ok_iff.2 rfl
      obtain ⟨places, hplaces, htexts, hanswer⟩ := ih hrest (n.prepend l)
      refine ⟨_, hplaces.cons_of_not_begins hs, ?_⟩
      have hdefaults : defaultsAt (s :: rest) (0 :: places.map (· + 1)) =
          s.defaultLine :: defaultsAt rest places :=
        congrArg (s.defaultLine :: ·) (defaultsAt_cons_map_succ s rest places)
      rw [if_neg (mt isIn_iff.1 hs), hl, hdefaults]
      simp only [htexts, hanswer, texts_prepend, List.reverse_cons, List.append_assoc]
      exact ⟨rfl, rfl⟩

/-- **Exactly the sections that are missing come in, once and for all.** They come in front of the
lines, the last one first, and the answer gives their default lines in order. After that every
section is there, and nothing more comes in. A marker is looked for as it is written. -/
theorem ensureSections_puts_in (hbegins : ∀ s ∈ sections, s.marker <+: s.defaultLine)
    (hlines : ∀ s ∈ sections, '\n' ∉ s.defaultLine) (n : Netlist) :
    (∃ places, IsPutIn sections n.texts places ∧
      (ensureSections sections n).1.texts = (defaultsAt sections places).reverse ++ n.texts ∧
      (ensureSections sections n).2 = .ok (defaultsAt sections places)) ∧
    (∀ s ∈ sections, s.Begins (ensureSections sections n).1.texts) ∧
    ensureSections sections (ensureSections sections n).1 =
      ((ensureSections sections n).1, .ok []) ∧
    ∀ s ∈ sections, ∃ p, s.pattern? = some p ∧
      ∀ t, (p.match? t).isSome = true ↔ s.marker <+: t := by
  obtain ⟨places, hplaces, htexts, hanswer⟩ := exists_isPutIn hlines n
  have hall : ∀ s ∈ sections, s.Begins (ensureSections sections n).1.texts := by
    rw [htexts]
    exact hplaces.begins hbegins
  exact ⟨⟨places, hplaces, htexts, hanswer⟩, hall, ensureSections_of_begins hall,
    fun s _ => s.exists_pattern?⟩

/-- Markers that begin one another, repeated ones, and one that is no plain word of a pattern. -/
def overlapping : List Section :=
  [.ofMarker "*.".toList (some "*.MEGA".toList), .ofMarker "*.MEGA".toList none,
    .ofMarker ".P".toList none, .ofMarker ".PARAM".toList none, .ofMarker ".P".toList none]

/-- The sections get in one by one also where the marker of one begins that of another. -/
theorem ensureSections_puts_in_overlapping :
    (∀ s ∈ overlapping, s.marker <+: s.defaultLine) ∧ (∀ s ∈ overlapping, '\n' ∉ s.defaultLine) ∧
    (∃ places, IsPutIn overlapping (ofText "R1 a b".toList).texts places ∧
      (ensureSections overlapping (ofText "R1 a b".toList)).1.texts =
        (defaultsAt overlapping places).reverse ++ (ofText "R1 a b".toList).texts ∧
      (ensureSections overlapping (ofText "R1 a b".toList)).2 = .ok (defaultsAt overlapping places))
    := by
  have hbegins : ∀ s ∈ overlapping, s.marker <+: s.defaultLine := by decide
  have hlines : ∀ s ∈ overlapping, '\n' ∉ s.defaultLine := by decide
  exact ⟨hbegins, hlines, (ensureSections_puts_in hbegins hlines _).1⟩

example : (ensureSections overlapping (ofText "R1 a b".toList)).1.texts =
    [".PARAM".toList, ".P".toList, "*.MEGA".toList, "R1 a b".toList] := by
  decide

end Netlist

end NetlistPrep
