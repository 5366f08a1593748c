import NetlistPrep.Proofs.Descriptor.Names
import NetlistPrep.Proofs.PinInfo

/-!
# Reading pin-info lines back

Nothing but blanks keeps the tokens of a pin-info line apart, and nothing but a colon the name in a
token from its letter. What can be read off a line is up to the names of the ports.

* `port?` reads a token and `ports?` a whole line.
* With plain names the words of a line are its tokens (`words_line`), each is read as its port
  (`port?_token`), and so the line determines the ports (`line_inj`).
* `line_parse_read_back`: a descriptor gives plain names only.
-/

namespace NetlistPrep

/-- The direction that a letter on a pin-info line stands for. -/
def Direction.ofCode? : Char → Option Direction
  | 'I' => some .input
  | 'O' => some .output
  | 'B' => some .inout
  | _ => none

theorem Direction.ofCode?_code (d : Direction) : ofCode? d.code = some d := by
  cases d <;> rfl

theorem Direction.code_inj {d d' : Direction} : d.code = d'.code ↔ d = d' := by
  refine ⟨fun h => ?_, congrArg code⟩
  have hread := congrArg ofCode? h
  rwa [ofCode?_code, ofCode?_code, Option.some_inj] at hread

namespace PinInfo

open Text Descriptor

/-- The port that a token describes: its name stands in front of the only colon, and the letter of
its direction is all that stands behind. -/
def port? (token : Text) : Option Port :=
  match split (· == ':') token with
  | [name, [letter]] => (Direction.ofCode? letter).map (Port.mk name)
  | _ => none

/-- The ports that a pin-info line lists. -/
def ports? (line : Text) : Option (List Port) :=
  match words line with
  | [] => none
  | word :: tokens => if word = marker then tokens.mapM port? else none

/-! ## Tokens -/

variable {p : Port}

theorem not_isBlank_of_mem_token (h : IsPlain p.name) : ∀ c ∈ token p, isBlank c = false := by
  have hletter : isBlank p.direction.code = false := by
    cases p.direction <;> decide
  intro c hc
  rcases List.mem_append.1 hc with hc | hc
  · exact (h c hc).1
  · rcases List.mem_pair.1 hc with rfl | rfl
    · decide
    · exact hletter

theorem words_token (h : IsPlain p.name) : words (token p) = [token p] :=
  words_of_not_blank (by simp [token]) (not_isBlank_of_mem_token h)

/-- The name and the letter are the two sides of the colon. -/
theorem split_token (h : IsPlain p.name) :
    split (· == ':') (token p) = [p.name, [p.direction.code]] := by
  have hname : ∀ c ∈ p.name, (c == ':') = false := fun c hc => by simpa using (h c hc).2
  have hletter : (p.direction.code == ':') = false := by
    cases p.direction <;> decide
  rw [token, split_append_cons (by rfl), split_of_not_sep hname,
    split_of_not_sep (by simpa using hletter)]
  rfl

theorem count_colon_token (h : IsPlain p.name) : (token p).count ':' = 1 := by
  have hname : p.name.count ':' = 0 := List.count_eq_zero.2 fun hc => (h ':' hc).2 rfl
  have hletter : [p.direction.code].count ':' = 0 := by
    cases p.direction <;> decide
  rw [token, List.count_append, List.count_cons_self, hname, hletter]

theorem port?_token (h : IsPlain p.name) : port? (token p) = some p := by
  simp only [port?, split_token h, Direction.ofCode?_code, Option.map_some]

/-! ## Lines -/

variable {ps : List Port} {c d : Cell}

theorem mapM_port?_token (h : ∀ p ∈ ps, IsPlain p.name) : (ps.map token).mapM port? = some ps := by
  induction ps with
  | nil => rfl
  | cons p ps ih =>
    rw [List.map_cons, List.mapM_cons, port?_token (h p List.mem_cons_self),
      ih fun q hq => h q (List.mem_cons_of_mem _ hq)]
    rfl

theorem words_append_tokens (h : ∀ p ∈ ps, IsPlain p.name) (a : Text) :
    words (a ++ ps.flatMap fun p => ' ' :: token p) = words a ++ ps.map token := by
  induction ps generalizing a with
  | nil => simp
  | cons p ps ih =>
    rw [List.flatMap_cons, ← List.append_assoc, ih fun q hq => h q (List.mem_cons_of_mem _ hq),
      words_append_blank (by decide), words_token (h p List.mem_cons_self), List.append_assoc]
    rfl

/-- **The words of a pin-info line** are the marker and the tokens of the ports. -/
theorem words_line (h : ∀ p ∈ c.ports, IsPlain p.name) :
    words (line c) = marker :: c.ports.map token := by
  have hmarker : words marker = [marker] := by decide
  rw [line_eq, words_append_tokens h, hmarker]
  rfl

/-- **A pin-info line is read as the ports it was written for.** -/
theorem ports?_line (h : ∀ p ∈ c.ports, IsPlain p.name) : ports? (line c) = some c.ports := by
  simp only [ports?, words_line h, if_true, mapM_port?_token h]

theorem line_inj (hc : ∀ p ∈ c.ports, IsPlain p.name) (hd : ∀ p ∈ d.ports, IsPlain p.name) :
    line c = line d ↔ c.ports = d.ports := by
  refine ⟨fun h => ?_, fun h => by rw [line, line, h]⟩
  have hread := congrArg ports? h
  rwa [ports?_line hc, ports?_line hd, Option.some_inj] at hread

/-- **The pin-info lines of a descriptor are unambiguous.** The words of such a line are the marker
and one token for every port, each with one colon, and they are read as the ports. So the lines of
two cells are the same only if their ports are. The line is a line of a netlist, and it declares
nothing. -/
theorem line_parse_read_back (t : Text) {e : Text × Cell} (he : e ∈ (parse t).entries) :
    words (line e.2) = marker :: e.2.ports.map token ∧
    (∀ w ∈ e.2.ports.map token, w.count ':' = 1) ∧
    ports? (line e.2) = some e.2.ports ∧
    (∀ t' : Text, ∀ e' ∈ (parse t').entries, line e.2 = line e'.2 ↔ e.2.ports = e'.2.ports) ∧
    declared? (line e.2) = none ∧
    ∃ l, Line.ofText (line e.2) = .ok l := by
  have hplain : ∀ p ∈ e.2.ports, IsPlain p.name := fun p hp => plain_of_mem_parse he hp
  have hmarker : marker <+: line e.2 := by
    rw [line_eq]
    exact List.prefix_append _ _
  have hline : '\n' ∉ line e.2 := newline_not_mem_line fun p hp => (hplain p hp).newline_not_mem
  refine ⟨words_line hplain, ?_, ports?_line hplain, fun t' e' he' => ?_,
    declared?_of_isPinInfo hmarker, ⟨line e.2, hline⟩, Line.ofText_eq_ok_iff.2 rfl⟩
  · rw [List.forall_mem_map]
    exact fun p hp => count_colon_token (hplain p hp)
  · exact line_inj hplain fun p hp => plain_of_mem_parse he' hp

/-- A cell whose name has a blank, with a port of the empty name and one outside ASCII. -/
theorem line_parse_read_back_empty_name :
    ("A B".toList, ⟨"A B".toList, [⟨"p<0>".toList, .input⟩, ⟨[], .inout⟩, ⟨['é'], .output⟩]⟩) ∈
      (parse ("A B :\n    p<0>:x y\n      direction: IN\n    :z\n".toList ++
        "    é\n      direction: out\n".toList)).entries ∧
    words (line ⟨"A B".toList,
        [⟨"p<0>".toList, .input⟩, ⟨[], .inout⟩, ⟨['é'], .output⟩]⟩) =
      ["*.PININFO", "p<0>:I", ":B", "é:O"].map (·.toList) ∧
    ports? "*.PININFO p<0>:I :B é:O".toList =
      some [⟨"p<0>".toList, .input⟩, ⟨[], .inout⟩, ⟨['é'], .output⟩] := by
  have he : ("A B".toList,
      (⟨"A B".toList, [⟨"p<0>".toList, .input⟩, ⟨[], .inout⟩, ⟨['é'], .output⟩]⟩ : Cell)) ∈
        (parse ("A B :\n    p<0>:x y\n      direction: IN\n    :z\n".toList ++
          "    é\n      direction: out\n".toList)).entries := by decide
  obtain ⟨hwords, -, hports, -⟩ := line_parse_read_back _ he
  have hline : line ⟨"A B".toList, [⟨"p<0>".toList, .input⟩, ⟨[], .inout⟩, ⟨['é'], .output⟩]⟩ =
      "*.PININFO p<0>:I :B é:O".toList := by decide
  exact ⟨he, hwords.trans (by decide), hline ▸ hports⟩

end PinInfo

end NetlistPrep
