import NetlistPrep.Proofs.KeyCase
import NetlistPrep.Proofs.Quantity
import NetlistPrep.Recovery

/-!
# What recovery writes

Recovery writes fields `key=quantity` behind a line, each behind a blank.

* `text_ofLine`: the written line is the line and its `fields`.
* `text_ofLine_of_not_mem`: a line without an equals sign stays as it is, because no attribute is
  found in it.
* `text_ofLine_eq_self_iff`: a line stays as it is if and only if nothing is recovered from it.
* `lowerKeys_text_ofLine`: the keys that are written are in small letters.
-/

namespace NetlistPrep

namespace Attribute

theorem eq_mem_of_scanKey? {key t : Text} {a : Attribute} (h : scanKey? key t = some a) :
    '=' ∈ t := by
  unfold scanKey? at h
  split at h
  · rename_i hkey
    exact (List.isPrefixOf_iff_prefix.1 hkey).subset (by simp)
  · simp at h

/-- What is found stands behind the key at some place of the text. -/
theorem exists_suffix_of_findFrom? {key : Text} {glued : Bool} {t : Text} {a : Attribute}
    (h : findFrom? key glued t = some a) : ∃ r, r <:+ t ∧ scanKey? key r = some a := by
  induction t generalizing glued with
  | nil => simp [findFrom?] at h
  | cons c r ih =>
    rw [findFrom?_cons, Option.or_eq_some_iff] at h
    rcases h with hfirst | ⟨-, hlater⟩
    · cases glued with
      | true => simp at hfirst
      | false => exact ⟨c :: r, List.suffix_rfl, hfirst⟩
    · obtain ⟨r', hr', hscan⟩ := ih hlater
      exact ⟨r', hr'.trans (List.suffix_cons c r), hscan⟩

theorem eq_mem_of_findFrom? {key : Text} {glued : Bool} {t : Text} {a : Attribute}
    (h : findFrom? key glued t = some a) : '=' ∈ t := by
  obtain ⟨r, hr, hscan⟩ := exists_suffix_of_findFrom? h
  exact hr.subset (eq_mem_of_scanKey? hscan)

/-- An attribute is found only where there is an equals sign. -/
theorem eq_mem_of_value? {key line : Text} {x : Float} (h : value? key line = some x) :
    '=' ∈ line := by
  obtain ⟨hx, -⟩ := Option.filter_eq_some_iff.1 h
  obtain ⟨a, ha, -⟩ := Option.map_eq_some_iff.1 hx
  exact eq_mem_of_findFrom? ha

end Attribute

namespace Recovery

/-- The keys and quantities that are written behind a line. -/
def fields (r : Recovery) : List (Text × Float) :=
  (r.finger.map fun x => (['f', 'w'], x)).toList
    ++ match r.rectangle with
      | some rect => [(['w'], rect.width), (['l'], rect.length)]
      | none => []

/-- A field: a blank, the key, an equals sign and the quantity. -/
def fieldText (f : Text × Float) : Text := ' ' :: (f.1 ++ '=' :: Quantity.write f.2)

theorem fingerText_eq (x : Float) : fingerText x = fieldText (['f', 'w'], x) := rfl

theorem rectangleText_eq (r : Rectangle) :
    rectangleText r = [(['w'], r.width), (['l'], r.length)].flatMap fieldText := by
  simp [rectangleText, fieldText]

/-- **The written line is the line and its fields.** -/
theorem text_ofLine (line : Text) :
    (ofLine line).text = line ++ (ofLine line).fields.flatMap fieldText := by
  have hfinger : ∀ x : Option Float, (x.map fingerText).getD [] =
      (x.map fun x => (['f', 'w'], x)).toList.flatMap fieldText := by
    intro x
    cases x <;> simp [fingerText_eq]
  simp only [ofLine, hfinger]
  split
  · simp [fields]
  · split
    · simp [fields]
    · simp [fields, rectangleText_eq]

theorem changed_eq_false_iff (r : Recovery) : r.changed = false ↔ r.fields = [] := by
  obtain ⟨text, finger, rectangle, unsolved⟩ := r
  cases finger <;> cases rectangle <;> simp [changed, fields]

theorem key_of_mem_fields {r : Recovery} {f : Text × Float} (h : f ∈ r.fields) :
    f.1 ∈ [['f', 'w'], ['w'], ['l']] := by
  rcases List.mem_append.1 h with h | h
  · obtain ⟨x, -, rfl⟩ := Option.map_eq_some_iff.1 (Option.mem_toList.1 h)
    simp
  · split at h
    · simp only [List.mem_cons, List.not_mem_nil, or_false] at h
      rcases h with rfl | rfl <;> simp
    · simp at h

theorem eq_mem_of_finger? {line : Text} {x : Float} (h : finger? line = some x) : '=' ∈ line := by
  unfold finger? at h
  split at h
  · rename_i hw _
    exact Attribute.eq_mem_of_value? hw
  · simp at h

theorem eq_mem_of_outline? {line : Text} {x : Float × Float} (h : outline? line = some x) :
    '=' ∈ line := by
  unfold outline? at h
  split at h
  · rename_i harea _
    exact Attribute.eq_mem_of_value? harea
  · simp at h

/-- **A line without an equals sign stays as it is.** -/
theorem text_ofLine_of_not_mem {line : Text} (h : '=' ∉ line) : (ofLine line).text = line := by
  have hfinger : finger? line = none :=
    Option.eq_none_iff_forall_ne_some.2 fun _ hx => h (eq_mem_of_finger? hx)
  have houtline : outline? line = none :=
    Option.eq_none_iff_forall_ne_some.2 fun _ hx => h (eq_mem_of_outline? hx)
  simp [ofLine, hfinger, houtline]

theorem two_le_length_fieldText (f : Text × Float) : 2 ≤ (fieldText f).length := by
  simp only [fieldText, List.length_cons, List.length_append]
  omega

theorem length_text_ofLine (line : Text) (h : (ofLine line).changed = true) :
    line.length + 2 ≤ (ofLine line).text.length := by
  have hne : (ofLine line).fields ≠ [] := by
    intro hnil
    rw [(changed_eq_false_iff _).2 hnil] at h
    simp at h
  obtain ⟨f, fs, hf⟩ := List.exists_cons_of_ne_nil hne
  have := two_le_length_fieldText f
  rw [text_ofLine, hf, List.flatMap_cons, List.length_append, List.length_append]
  omega

theorem text_ofLine_of_not_changed {line : Text} (h : (ofLine line).changed = false) :
    (ofLine line).text = line := by
  rw [text_ofLine, (changed_eq_false_iff _).1 h, List.flatMap_nil, List.append_nil]

/-- **A line stays as it is if and only if nothing is recovered from it.** -/
theorem text_ofLine_eq_self_iff (line : Text) :
    (ofLine line).text = line ↔ (ofLine line).changed = false := by
  refine ⟨fun h => ?_, text_ofLine_of_not_changed⟩
  rw [← Bool.not_eq_true]
  intro hc
  have := length_text_ofLine line hc
  rw [h] at this
  omega

theorem newline_not_mem_fieldText {r : Recovery} {f : Text × Float} (hf : f ∈ r.fields) :
    '\n' ∉ fieldText f := by
  have hkeys : ∀ k ∈ [['f', 'w'], ['w'], ['l']], '\n' ∉ k := by decide
  simp only [fieldText, List.mem_cons, List.mem_append, not_or]
  exact ⟨by decide, hkeys _ (key_of_mem_fields hf), by decide,
    fun h => absurd (isFigure_of_mem_write h) (by decide)⟩

theorem newline_not_mem_text_ofLine {line : Text} (h : '\n' ∉ line) :
    '\n' ∉ (ofLine line).text := by
  rw [text_ofLine, List.mem_append, not_or]
  refine ⟨h, fun hm => ?_⟩
  obtain ⟨f, hf, hfm⟩ := List.mem_flatMap.1 hm
  exact newline_not_mem_fieldText hf hfm

theorem lowerKeys_append_fields {line : Text} {fs : List (Text × Float)}
    (hfs : ∀ f ∈ fs, f.1 ∈ [['f', 'w'], ['w'], ['l']])
    (h : KeyCase.lowerKeys KeyCase.standard line = line) :
    KeyCase.lowerKeys KeyCase.standard (line ++ fs.flatMap fieldText) =
      line ++ fs.flatMap fieldText := by
  induction fs generalizing line with
  | nil => simpa using h
  | cons f fs ih =>
    have hkeys : ∀ k ∈ [['f', 'w'], ['w'], ['l']],
        k ≠ [] ∧ ' ' ∉ k ∧ ∀ r ∈ KeyCase.bare, r.1 ≠ [] ∧ r.1.head? ≠ k.head? := by decide
    obtain ⟨hne, hblank, hheads⟩ := hkeys f.1 (hfs f List.mem_cons_self)
    rw [List.flatMap_cons, ← List.append_assoc]
    refine ih (fun g hg => hfs g (List.mem_cons_of_mem _ hg)) ?_
    refine KeyCase.lowerKeys_append_piece h ?_ fun r hr => ?_
    · simp only [List.mem_append, List.mem_cons, not_or]
      exact ⟨hblank, by decide, fun hm => absurd (isFigure_of_mem_write hm) (by decide)⟩
    · exact KeyCase.not_prefix_append_of_head? (hheads r hr).1 hne (hheads r hr).2 _

/-- **The keys that are written are in small letters.** -/
theorem lowerKeys_text_ofLine {line : Text} (h : KeyCase.lowerKeys KeyCase.standard line = line) :
    KeyCase.lowerKeys KeyCase.standard (ofLine line).text = (ofLine line).text := by
  rw [text_ofLine]
  exact lowerKeys_append_fields (fun _ => key_of_mem_fields) h

end Recovery

end NetlistPrep
