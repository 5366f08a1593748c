import NetlistPrep.Proofs.KeyCase
import NetlistPrep.Proofs.PinInfo.Walk

/-!
# Merging pin information again

A second merge with the same table finds every pin-info line that the first one wrote and writes it
once more: it puts none in, replaces all of them and leaves every line as it is.

* `counted_map_merged` is what a merge counts over merged lines, which may have been rewritten as
  long as their pin-info lines still begin as such.
* `mergePinInfo_of_map` is the second merge over such lines, `mergePinInfo_again` its two cases: the
  lines as they were left, and the lines with their keys in small letters.
-/

namespace NetlistPrep

open PinInfo KeyCase

variable {t : CellTable} {g : Text → Text}

namespace PinInfo

/-- What is counted determines the count. -/
theorem Counted.unique {lines : List Text} {s a b : Stats} (ha : Counted t lines s a)
    (hb : Counted t lines s b) : a = b := by
  have hreplaced : a.replaced = b.replaced := ha.replaced.trans hb.replaced.symm
  have hwritten : a.inserted + a.replaced = b.inserted + b.replaced :=
    ha.written.trans hb.written.symm
  have hunmatched : a.unmatched = b.unmatched := ha.unmatched.trans hb.unmatched.symm
  cases a
  cases b
  simp_all

/-- **Over merged lines every pin-info line counts as replaced** and the unknown names are those of
the lines before the merge. -/
theorem counted_map_merged {lines : List Text} (hlines : ∀ l ∈ lines, g l = l)
    (hinfo : ∀ l info, info? t l = some info → marker <+: g info) (stale : Bool) (s : Stats) :
    Counted t ((merged t stale lines).map g) s
      { s with
        replaced := s.replaced + lines.countP fun l => (info? t l).isSome
        unmatched := s.unmatched ++ lines.filterMap (unknown? t) } := by
  induction lines generalizing stale s with
  | nil => simpa using Counted.nil s
  | cons l rest ih =>
    have hl : g l = l := hlines l List.mem_cons_self
    have ih := ih fun l' hl' => hlines l' (List.mem_cons_of_mem _ hl')
    rw [merged_cons]
    split
    · rename_i hstale
      have hmarker : marker <+: l := by
        simp only [Bool.and_eq_true, List.isPrefixOf_iff_prefix] at hstale
        exact hstale.2
      have := ih false s
      simpa [info?_of_isPinInfo hmarker, unknown?_of_isPinInfo hmarker] using this
    · cases hi : info? t l with
      | some info =>
        have hmarker : marker <+: g info := hinfo l info hi
        rw [List.map_cons, List.map_cons, hl]
        refine .cons_of_some hi ((Counted.marker_cons_iff hmarker).2 ?_)
        have := ih true (s.wrote true)
        simpa [Stats.wrote, hi, hmarker, unknown?_of_info? hi, Nat.add_assoc, Nat.add_comm 1]
          using this
      | none =>
        rw [List.map_cons, hl]
        refine .cons_of_none hi ?_
        have := ih false { s with unmatched := s.unmatched ++ (unknown? t l).toList }
        cases hu : unknown? t l <;> simpa [hi, hu] using this

end PinInfo

namespace Netlist

/-- **Merging again leaves the merged lines,** whatever happened in between to the pin-info lines
that the first merge wrote, as long as they still begin as such. -/
theorem mergePinInfo_of_map {n m k : Netlist} {stats : Stats}
    (hports : ∀ e ∈ t.entries, ∀ p ∈ e.2.ports, '\n' ∉ p.name)
    (hmerge : n.mergePinInfo t = (m, .ok stats)) (hk : k.texts = m.texts.map g)
    (hlines : ∀ l ∈ n.texts, g l = l)
    (hinfo : ∀ l info, info? t l = some info → marker <+: g info) :
    k.mergePinInfo t = (m, .ok ⟨0, stats.inserted + stats.replaced, stats.unmatched⟩) := by
  have hnewline : ∀ lines : List Text, ∀ l ∈ lines, ∀ info, info? t l = some info → '\n' ∉ info :=
    fun _ _ _ _ hi => newline_not_mem_info hports hi
  obtain ⟨m', stats', hmerge', htexts, hcounted⟩ := mergePinInfo_eq_ok (hnewline n.texts)
  obtain ⟨rfl, hstats⟩ := Prod.mk.inj (hmerge'.symm.trans hmerge)
  obtain rfl := Except.ok.inj hstats
  obtain ⟨m₂, stats₂, hmerge₂, htexts₂, hcounted₂⟩ := mergePinInfo_eq_ok (hnewline k.texts)
  rw [hk, htexts] at htexts₂ hcounted₂
  obtain rfl : m₂ = m' :=
    ext_texts (htexts₂.trans ((merged_map_merged hlines hinfo false).trans htexts.symm))
  have hwritten := hcounted.written
  have hunmatched := hcounted.unmatched
  rw [hmerge₂, hcounted₂.unique (counted_map_merged hlines hinfo false {}), hwritten, hunmatched]
  simp

/-- **Merging twice is merging once.** The second merge leaves every line as it is; it counts as
replaced whatever the first one wrote, and it meets the same unknown names. The same holds where all
keys are put in small letters in between, for lines that had them so at the start. -/
theorem mergePinInfo_again (t : CellTable) (n : Netlist)
    (hports : ∀ e ∈ t.entries, ∀ p ∈ e.2.ports, '\n' ∉ p.name) :
    ∃ m stats, n.mergePinInfo t = (m, .ok stats) ∧
      m.mergePinInfo t = (m, .ok ⟨0, stats.inserted + stats.replaced, stats.unmatched⟩) ∧
      ((∀ l ∈ n.texts, KeyCase.lowerKeys standard l = l) →
        ∃ k changed, m.lowerKeys standard = (k, .ok changed) ∧
          k.texts = m.texts.map (KeyCase.lowerKeys standard) ∧
          k.mergePinInfo t = (m, .ok ⟨0, stats.inserted + stats.replaced, stats.unmatched⟩)) := by
  obtain ⟨m, stats, hmerge, -⟩ :=
    mergePinInfo_eq_ok (n := n) fun _ _ _ hi => newline_not_mem_info hports hi
  refine ⟨m, stats, hmerge, ?_, fun hlower => ?_⟩
  · exact mergePinInfo_of_map hports hmerge (g := id) (by simp) (fun _ _ => rfl)
      fun _ _ hi => marker_prefix_of_info? hi
  · have hlines : ∀ l ∈ m.texts, '\n' ∉ KeyCase.lowerKeys standard l :=
      fun l hl => newline_not_mem_lowerKeys (not_newline_of_mem_texts hl)
    obtain ⟨htexts, hchanged⟩ := rewrite_eq_ok hlines
    refine ⟨_, _, Prod.ext rfl hchanged, htexts, ?_⟩
    exact mergePinInfo_of_map hports hmerge htexts hlower fun _ _ hi =>
      (prefix_lowerKeys_iff (by decide) _).2 (marker_prefix_of_info? hi)

/-- A merge whose pin-info line has a key in capitals, behind an outdated one, and the merge after
the keys were put in small letters. -/
theorem mergePinInfo_again_upper_key :
    ∃ m k : Netlist,
      (ofText ".SUBCKT INV A\n*.PININFO A:O\n.SUBCKT NOR B\n".toList).mergePinInfo
          (.ofList [("INV".toList, ⟨"INV".toList, [⟨"A W=".toList, .input⟩]⟩)]) =
        (m, .ok ⟨0, 1, ["NOR".toList]⟩) ∧
      m.texts = [".SUBCKT INV A", "*.PININFO A W=:I", ".SUBCKT NOR B"].map (·.toList) ∧
      k.texts = [".SUBCKT INV A", "*.PININFO A w=:I", ".SUBCKT NOR B"].map (·.toList) ∧
      k.mergePinInfo (.ofList [("INV".toList, ⟨"INV".toList, [⟨"A W=".toList, .input⟩]⟩)]) =
        (m, .ok ⟨0, 1, ["NOR".toList]⟩) := by
  have hports : ∀ e ∈ (CellTable.ofList
      [("INV".toList, ⟨"INV".toList, [⟨"A W=".toList, .input⟩]⟩)]).entries,
      ∀ p ∈ e.2.ports, '\n' ∉ p.name := by decide
  obtain ⟨m, stats, hmerge, -, hlower⟩ := mergePinInfo_again _
    (ofText ".SUBCKT INV A\n*.PININFO A:O\n.SUBCKT NOR B\n".toList) hports
  obtain ⟨k, changed, -, hk, hagain⟩ := hlower (by decide)
  obtain ⟨m', stats', hmerge', htexts, hcounted⟩ := mergePinInfo_eq_ok
    (n := ofText ".SUBCKT INV A\n*.PININFO A:O\n.SUBCKT NOR B\n".toList) fun _ _ _ hi =>
      newline_not_mem_info hports hi
  obtain ⟨rfl, hstats⟩ := Prod.mk.inj (hmerge'.symm.trans hmerge)
  obtain rfl := Except.ok.inj hstats
  obtain rfl : stats' = ⟨0, 1, ["NOR".toList]⟩ :=
    hcounted.unique ⟨by decide, by decide, by decide⟩
  exact ⟨m', k, hmerge, htexts.trans (by decide), hk.trans (by rw [htexts]; decide), hagain⟩

end Netlist

end NetlistPrep
