import NetlistPrep.Proofs.Descriptor.Reader
import NetlistPrep.Proofs.Text.LineEnds
import NetlistPrep.FileTree
import NetlistPrep.Descriptor.File

/-!
# Texts from files

What a netlist and a descriptor are when they are read from a file, in terms of the text that the
octets of the file stand for.

* `Descriptor.parse_unifyLineEnds`: the cells of a file are those of the pieces between line feeds
  and carriage returns.
* `TextFile.read_and_load_of_decode`: every netlist and descriptor file with a UTF-8 text can be
  read; a carriage return ends a line of it as a line feed does, and without one inside a line both
  are those of the text.
-/

namespace NetlistPrep

namespace Descriptor

/-- The cells of a text read from a file: carriage returns end lines, too. -/
theorem parse_unifyLineEnds (t : Text) :
    parse (Text.unifyLineEnds t) = (Reader.feedAll {} 1 (Text.split Text.isLineEnd t)).table := by
  rw [table_feedAll_filter, ← Text.filter_lines_unifyLineEnds, ← table_feedAll_filter]
  rfl

theorem parse_unifyLineEnds_of_forall {t : Text} (h : ∀ l ∈ Text.lines t, '\r' ∉ l) :
    parse (Text.unifyLineEnds t) = parse t := by
  have hfilter : (Text.lines (Text.unifyLineEnds t)).filter (· ≠ []) =
      (Text.lines t).filter (· ≠ []) := by
    rcases Text.lines_unifyLineEnds h with h | h <;> simp [h]
  exact parse_congr hfilter

end Descriptor

namespace TextFile

variable {tree : FileTree} {p : Path} {octets : Octets} {d : Text}

theorem read_of_decode_eq_ok (shown : Text) (hnul : '\x00' ∉ p.text)
    (hread : tree.read p = .ok octets) (hdecode : Utf8.decode octets = .ok d) :
    read tree shown p = .ok (Text.unifyLineEnds d) := by
  simp [read, openable, hnul, hread, ofRead, decode, hdecode, bind, Except.bind]

/-- **Reading from a file agrees with reading the text of the file** as far as carriage returns
allow: they end lines in a file. The netlist of a file is that of its text if and only if no line of
the text has a carriage return inside of it, and then its cells are those of the text, too. -/
theorem read_and_load_of_decode (shown : Text) (hnul : '\x00' ∉ p.text)
    (hread : tree.read p = .ok octets) (hdecode : Utf8.decode octets = .ok d) :
    ∃ text loaded, read tree shown p = .ok text ∧ Descriptor.load tree shown p = .ok loaded ∧
      (Netlist.ofText text).texts = (Text.split Text.isLineEnd d).filter (· ≠ []) ∧
      loaded.cells.entries = Descriptor.cells (Text.split Text.isLineEnd d) ∧
      (Netlist.ofText text = Netlist.ofText d ↔ ∀ l ∈ Text.lines d, '\r' ∉ l) ∧
      ((∀ l ∈ Text.lines d, '\r' ∉ l) → loaded.cells = Descriptor.parse d) := by
  have htext := read_of_decode_eq_ok shown hnul hread hdecode
  refine ⟨_, Descriptor.ofFileText shown (Text.unifyLineEnds d), htext, ?_, ?_, ?_,
    Netlist.ofText_unifyLineEnds_eq_iff, Descriptor.parse_unifyLineEnds_of_forall⟩
  · rw [Descriptor.load, htext]
    rfl
  · rw [Netlist.texts_ofText, Text.filter_lines_unifyLineEnds]
  · have hcells : (Descriptor.ofFileText shown (Text.unifyLineEnds d)).cells =
        Descriptor.parse (Text.unifyLineEnds d) := rfl
    rw [hcells, Descriptor.parse_unifyLineEnds]
    exact (Descriptor.hasRead_feedAll _).blocks.entries_table

/-- A descriptor file with two kinds of line ends. -/
theorem read_and_load_return_newline :
    ∃ text loaded,
      read ⟨[], [(["d".toList], .file [97, 58, 13, 10, 32, 32, 32, 32, 80, 58, 10])]⟩ []
        (.ofText "d".toList) = .ok text ∧
      Descriptor.load ⟨[], [(["d".toList], .file [97, 58, 13, 10, 32, 32, 32, 32, 80, 58, 10])]⟩ []
        (.ofText "d".toList) = .ok loaded ∧
      Netlist.ofText text = Netlist.ofText "a:\r\n    P:\n".toList ∧
      loaded.cells.entries = [("a".toList, ⟨"a".toList, [⟨"P".toList, .inout⟩]⟩)] := by
  have hread :
      FileTree.read ⟨[], [(["d".toList], .file [97, 58, 13, 10, 32, 32, 32, 32, 80, 58, 10])]⟩
        (.ofText "d".toList) = .ok [97, 58, 13, 10, 32, 32, 32, 32, 80, 58, 10] := by
    decide +kernel
  have hdecode : Utf8.decode [97, 58, 13, 10, 32, 32, 32, 32, 80, 58, 10] =
      .ok "a:\r\n    P:\n".toList := rfl
  obtain ⟨text, loaded, htext, hloaded, -, hcells, hiff, -⟩ :=
    read_and_load_of_decode [] (by decide) hread hdecode
  exact ⟨text, loaded, htext, hloaded, hiff.2 (by decide), hcells.trans (by decide)⟩

/-- A lone carriage return inside a line cuts it in two where the text comes from a file, and only
there. -/
theorem read_and_load_return :
    Utf8.decode [97, 13, 98, 58, 10] = .ok "a\rb:\n".toList ∧
      ∃ text loaded,
        read ⟨[], [(["d".toList], .file [97, 13, 98, 58, 10])]⟩ [] (.ofText "d".toList) = .ok text ∧
        Descriptor.load ⟨[], [(["d".toList], .file [97, 13, 98, 58, 10])]⟩ [] (.ofText "d".toList) =
          .ok loaded ∧
        (Netlist.ofText text).texts = [['a'], ['b', ':']] ∧
        (Netlist.ofText "a\rb:\n".toList).texts = [['a', '\r', 'b', ':']] ∧
        loaded.cells.keys = [['a'], ['b']] ∧
        (Descriptor.parse "a\rb:\n".toList).keys = [['a', '\r', 'b']] := by
  have htext : read ⟨[], [(["d".toList], .file [97, 13, 98, 58, 10])]⟩ [] (.ofText "d".toList) =
      .ok "a\nb:\n".toList := by
    decide +kernel
  refine ⟨rfl, "a\nb:\n".toList, Descriptor.ofFileText [] "a\nb:\n".toList, htext, ?_, ?_⟩
  · rw [Descriptor.load, htext]
    rfl
  · decide

end TextFile

end NetlistPrep
