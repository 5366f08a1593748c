import NetlistPrep.Proofs.KeyCase
import NetlistPrep.Proofs.PinInfo
import NetlistPrep.Proofs.Recovery
import NetlistPrep.Settings

/-!
# What a run makes of a single line

`fixLine` is the two line passes as far as the settings ask for them.

* `lowerLine_fixLine` and `declared?_fixLine_dropReturn_fixLine`: a line that has been through them
  keeps its keys and what it declares when it goes through them again.
* `prefix_fixLine_iff`: a word without a blank begins the fixed line exactly where it begins the
  line.
* `fixLine_of_not_mem`: a line without an equals sign stays as it is.
-/

namespace NetlistPrep.Pipeline

open KeyCase PinInfo Text

/-- A line with its keys in lower case, if the settings ask for it. -/
def lowerLine (s : Settings) (line : Text) : Text :=
  if s.caseConversion then lowerKeys standard line else line

/-- What the line passes make of a line: keys in lower case, then the recovered fields. -/
def fixLine (s : Settings) (line : Text) : Text :=
  if s.geometry then (Recovery.ofLine (lowerLine s line)).text else lowerLine s line

variable {s : Settings}

theorem fixLine_of_geometry (h : s.geometry = true) (line : Text) :
    fixLine s line = (Recovery.ofLine (lowerLine s line)).text := if_pos h

theorem fixLine_of_not_geometry (h : s.geometry = false) (line : Text) :
    fixLine s line = lowerLine s line := by
  simp [fixLine, h]

/-! ## Keys -/

theorem lowerLine_lowerLine (line : Text) : lowerLine s (lowerLine s line) = lowerLine s line := by
  unfold lowerLine
  split
  · exact lowerKeys_lowerKeys line
  · rfl

theorem lowerLine_dropReturn (line : Text) :
    lowerLine s (dropReturn line) = dropReturn (lowerLine s line) := by
  unfold lowerLine
  split
  · exact lowerKeys_dropReturn line
  · rfl

theorem getLast?_lowerLine_eq_return_iff (line : Text) :
    (lowerLine s line).getLast? = some '\r' ↔ line.getLast? = some '\r' := by
  unfold lowerLine
  split
  · exact getLast?_lowerKeys_eq_return_iff line
  · rfl

theorem length_lowerLine (line : Text) : (lowerLine s line).length = line.length := by
  unfold lowerLine
  split
  · exact length_lowerKeys line
  · rfl

theorem lowerLine_eq_nil_iff {line : Text} : lowerLine s line = [] ↔ line = [] := by
  unfold lowerLine
  split
  · exact lowerKeys_eq_nil_iff
  · rfl

theorem lowerLine_fixLine (line : Text) : lowerLine s (fixLine s line) = fixLine s line := by
  cases hg : s.geometry with
  | false => rw [fixLine_of_not_geometry hg, lowerLine_lowerLine]
  | true =>
    rw [fixLine_of_geometry hg]
    have h := lowerLine_lowerLine (s := s) line
    cases hc : s.caseConversion with
    | false => simp [lowerLine, hc]
    | true =>
      simp only [lowerLine, hc, if_true] at h ⊢
      exact Recovery.lowerKeys_text_ofLine h

/-- **Without an equals sign there is nothing to fix.** -/
theorem fixLine_of_not_mem {line : Text} (h : '=' ∉ line) : fixLine s line = line := by
  have hlower : lowerLine s line = line := by
    unfold lowerLine
    split
    · exact lowerKeys_of_not_mem h
    · rfl
  unfold fixLine
  rw [hlower, Recovery.text_ofLine_of_not_mem h, ite_self]

/-! ## The start of a line -/

theorem prefix_text_ofLine_iff {word line : Text} (h : ' ' ∉ word) :
    word <+: (Recovery.ofLine line).text ↔ word <+: line := by
  rw [Recovery.text_ofLine]
  refine ⟨fun hp => prefix_of_prefix_append hp ?_, fun hp => hp.trans (List.prefix_append _ _)⟩
  intro c hc hmem
  cases hf : (Recovery.ofLine line).fields with
  | nil => simp [hf] at hc
  | cons f fs =>
    simp only [hf, List.flatMap_cons, Recovery.fieldText, List.cons_append, List.head?_cons,
      Option.mem_def, Option.some.injEq] at hc
    exact h (hc ▸ hmem)

/-- **A word without a blank begins a fixed line exactly where it begins the line.** -/
theorem prefix_fixLine_iff {word line : Text} (h : ' ' ∉ word) :
    word <+: fixLine s line ↔ word <+: line := by
  have hlower : word <+: lowerLine s line ↔ word <+: line := by
    unfold lowerLine
    split
    · exact prefix_lowerKeys_iff h line
    · rfl
  unfold fixLine
  split
  · rw [prefix_text_ofLine_iff h, hlower]
  · exact hlower

/-! ## Declarations -/

theorem declared?_fixLine (line : Text) :
    declared? (fixLine s line) = declared? (lowerLine s line) := by
  unfold fixLine
  split
  · exact declared?_text_ofLine _
  · rfl

/-- **A line that has been fixed declares the same when it is read and fixed again.** -/
theorem declared?_fixLine_dropReturn_fixLine (line : Text) :
    declared? (fixLine s (dropReturn (fixLine s line))) = declared? (fixLine s line) := by
  rw [declared?_fixLine, lowerLine_dropReturn, lowerLine_fixLine, declared?_dropReturn]

end NetlistPrep.Pipeline
