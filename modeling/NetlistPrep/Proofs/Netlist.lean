import NetlistPrep.Fingerprint
import NetlistPrep.Proofs.Text.Split

/-!
# The text of a netlist

A netlist is written with a line feed behind every line.

* `toText_inj`: the text determines the lines, the empty ones and those with carriage returns
  included, and it is the text of which the fingerprint is taken.
* `ofText_toText_eq_iff`: reading leaves out empty lines and one carriage return at the end of a
  line (`texts_ofText_toText`), so it gives the netlist back if and only if there is neither.
-/

namespace NetlistPrep.Netlist

open Text

/-- The pieces between the line feeds are the lines, and an empty piece behind the last one. -/
theorem split_toText (n : Netlist) : split (· == '\n') n.toText = n.texts ++ [[]] :=
  split_flatMap_closed fun _ => not_newline_of_mem_texts

/-- **Two netlists with the same text are the same.** -/
theorem toText_inj {m n : Netlist} : m.toText = n.toText ↔ m = n := by
  refine ⟨fun h => ext_texts ?_, congrArg toText⟩
  have hpieces := congrArg (split (· == '\n')) h
  rw [split_toText, split_toText] at hpieces
  exact List.append_cancel_right hpieces

/-- Lines that stay as they are when carriage returns at their ends and empty lines are left out. -/
theorem filter_map_dropReturn_eq_self_iff {lines : List Text} :
    (lines.map dropReturn).filter (· ≠ []) = lines ↔
      ∀ l ∈ lines, l ≠ [] ∧ l.getLast? ≠ some '\r' := by
  constructor
  · intro h l hl
    have hlength : ((lines.map dropReturn).filter (· ≠ [])).length =
        (lines.map dropReturn).length := by rw [h, List.length_map]
    -- As many lines are left as there were, so none of them was empty.
    have hmap : lines.map dropReturn = lines :=
      (List.filter_sublist.eq_of_length hlength).symm.trans h
    have hself : dropReturn l = l :=
      List.map_eq_map_iff.1 (hmap.trans (List.map_id lines).symm) l hl
    rw [← h] at hl
    exact ⟨of_decide_eq_true (List.mem_filter.1 hl).2, dropReturn_eq_self_iff.1 hself⟩
  · intro h
    have hself : ∀ l ∈ lines, dropReturn l = l := fun l hl => dropReturn_eq_self_iff.2 (h l hl).2
    rw [List.map_congr_left hself, List.map_id']
    exact List.filter_eq_self.2 fun l hl => decide_eq_true (h l hl).1

/-- **A netlist is read back as it was written** if and only if it has no empty line and no line
with a carriage return at its end. -/
theorem ofText_toText_eq_iff (n : Netlist) :
    ofText n.toText = n ↔ ∀ l ∈ n.texts, l ≠ [] ∧ l.getLast? ≠ some '\r' := by
  have htexts : ofText n.toText = n ↔ (ofText n.toText).texts = n.texts :=
    ⟨congrArg texts, ext_texts⟩
  rw [htexts, texts_ofText_toText]
  exact filter_map_dropReturn_eq_self_iff

/-- **Writing and reading.** What is read back are the lines without one carriage return at the end
of each, the empty ones left out. That is the netlist itself if and only if no line is empty or ends
with a carriage return. The text, of which the fingerprint of the lines is taken, is that of no
other netlist. -/
theorem toText_read_back_and_unique (n : Netlist) :
    (ofText n.toText).texts = (n.texts.map dropReturn).filter (· ≠ []) ∧
    (ofText n.toText = n ↔ ∀ l ∈ n.texts, l ≠ [] ∧ l.getLast? ≠ some '\r') ∧
    (∀ m : Netlist, m.toText = n.toText ↔ m = n) ∧
    Fingerprint.ofLines n.texts = Fingerprint.ofText n.toText :=
  ⟨texts_ofText_toText n, ofText_toText_eq_iff n, fun _ => toText_inj, rfl⟩

/-- A line that ends with two carriage returns loses one of them, and one that is nothing else is
left out. -/
example :
    let n : Netlist := ⟨[⟨['a', '\r', '\r'], by decide⟩, ⟨['\r'], by decide⟩, ⟨[], by decide⟩]⟩
    (ofText n.toText).texts = [['a', '\r']] := by
  decide

end NetlistPrep.Netlist
