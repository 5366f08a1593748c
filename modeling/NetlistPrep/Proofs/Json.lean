import Mathlib.Algebra.Group.Nat.Defs
import Mathlib.Tactic.SplitIfs
import NetlistPrep.Json
import NetlistPrep.Proofs.Rows
import NetlistPrep.Proofs.Text.Delimited

/-!
# Canonical texts

A string is written in ASCII alone, unit by unit of UTF-16. `unescape?` takes one written unit off a
text (`unescape?_escape_append`). So a written string shows where it ends and what its units were
(`isSelfDelimiting_unitString`), whatever units are in it.

The members of a value are written in the order of their keys, so members under distinct keys have
one text, however they came (`canonical_obj_eq_of_perm`).
-/

namespace NetlistPrep

namespace Text

/-! ## Hexadecimal digits -/

def hexDigit (c : Char) : Nat := if c ≤ '9' then c.toNat - '0'.toNat else c.toNat - 'a'.toNat + 10

/-- The number that hexadecimal digits write. -/
def hexValue (t : Text) : Nat := t.foldl (fun n c => 16 * n + hexDigit c) 0

theorem hexDigit_digitChar : ∀ d < 16, hexDigit d.digitChar = d := by
  decide

theorem hexValue_toDigits (n : Nat) : hexValue (Nat.toDigits 16 n) = n := by
  induction n using Nat.strongRecOn with
  | ind n ih =>
    rw [Nat.toDigits_eq_if (by decide)]
    split
    · rename_i hn
      simpa [hexValue] using hexDigit_digitChar n hn
    · rename_i hn
      have hquotient := ih (n / 16) (by omega)
      have hdigit := hexDigit_digitChar (n % 16) (Nat.mod_lt _ (by decide))
      rw [hexValue] at hquotient
      rw [hexValue, List.foldl_append, hquotient, List.foldl_cons, List.foldl_nil, hdigit]
      exact Nat.div_add_mod n 16

theorem hexValue_zeros_append (k : Nat) (t : Text) :
    hexValue (List.replicate k '0' ++ t) = hexValue t := by
  induction k with
  | zero => rfl
  | succ k ih => exact ih

variable {width n : Nat}

theorem hexValue_hex (width n : Nat) : hexValue (hex width n) = n := by
  rw [hex, hexValue_zeros_append, hexValue_toDigits]

theorem length_hex (hwidth : 0 < width) (hn : n < 16 ^ width) : (hex width n).length = width := by
  have hle := (Nat.length_toDigits_le_iff (by decide) hwidth).2 hn
  rw [hex, List.length_append, List.length_replicate]
  omega

end Text

namespace Json

open Text

/-! ## Escapes -/

/-- What the letter of a short escape stands for; any other character stands for itself. -/
def unescapeLetter : Char → Char
  | 'n' => '\n'
  | 'r' => '\r'
  | 't' => '\t'
  | 'f' => '\x0c'
  | 'b' => '\x08'
  | c => c

/-- Takes a written unit off a text. A quotation mark ends the string, so it is none. -/
def unescape? : Text → Option (UInt16 × Text)
  | '\\' :: 'u' :: r => some (.ofNat (hexValue (r.take 4)), r.drop 4)
  | '\\' :: c :: r => some (.ofNat (unescapeLetter c).toNat, r)
  | '"' :: _ => none
  | c :: r => some (.ofNat c.toNat, r)
  | [] => none

theorem unescape?_cons {c : Char} (hslash : c ≠ '\\') (hmark : c ≠ '"') (r : Text) :
    unescape? (c :: r) = some (.ofNat c.toNat, r) := by
  unfold unescape?
  split <;> simp_all

theorem unescape?_hex_append (u : UInt16) (r : Text) :
    unescape? ('\\' :: 'u' :: hex 4 u.toNat ++ r) = some (u, r) := by
  have hlength : (hex 4 u.toNat).length = 4 := length_hex (by decide) u.toNat_lt
  show some (UInt16.ofNat (hexValue ((hex 4 u.toNat ++ r).take 4)), (hex 4 u.toNat ++ r).drop 4) = _
  rw [List.take_left' hlength, List.drop_left' hlength, hexValue_hex, UInt16.ofNat_toNat]

/-- The number of an ASCII character is that of its unit. -/
theorem eq_ofNat_of_char {u : UInt16} {c : Char} (h : Char.ofNat u.toNat = c) (hc : c ≠ '\x00') :
    u = .ofNat c.toNat := by
  by_cases hvalid : u.toNat.isValidChar
  · rw [← h, toNat_ofNat_of_isValidChar hvalid, UInt16.ofNat_toNat]
  · exact absurd (h.symm.trans (dif_neg hvalid)) hc

/-- **A written unit is read back,** whatever stands behind it. -/
theorem unescape?_escape_append (u : UInt16) (r : Text) :
    unescape? (escape u ++ r) = some (u, r) := by
  simp only [escape]
  split_ifs with hmark hfeed hreturn htab hform hback hprintable
  · rcases hmark with h | h <;> rw [h, eq_ofNat_of_char h (by decide)] <;> rfl
  · exact eq_ofNat_of_char hfeed (by decide) ▸ rfl
  · exact eq_ofNat_of_char hreturn (by decide) ▸ rfl
  · exact eq_ofNat_of_char htab (by decide) ▸ rfl
  · exact eq_ofNat_of_char hform (by decide) ▸ rfl
  · exact eq_ofNat_of_char hback (by decide) ▸ rfl
  · have hvalid : u.toNat.isValidChar := .inl (by omega)
    obtain ⟨hquotation, hslash⟩ := not_or.1 hmark
    rw [List.singleton_append, unescape?_cons hslash hquotation,
      toNat_ofNat_of_isValidChar hvalid, UInt16.ofNat_toNat]
  · exact unescape?_hex_append u r

theorem isSelfDelimiting_escape : IsSelfDelimiting escape :=
  .of_reader unescape?_escape_append

/-- The units of a string, as they are written. -/
def unitString (units : List UInt16) : Text := '"' :: units.flatMap escape ++ ['"']

/-- **A written string shows what its units were and where it ends.** -/
theorem isSelfDelimiting_unitString : IsSelfDelimiting unitString := by
  refine (isSelfDelimiting_escape.flatMap fun u r s h => ?_).cons '"'
  have hread := congrArg unescape? h
  rw [unescape?_escape_append] at hread
  exact absurd hread (by simp [unescape?])

theorem wideString_eq (w : WideText) : wideString w = unitString (w.flatMap CodePoint.units) := by
  rw [wideString, unitString, List.flatMap_assoc]

/-! ## Members -/

theorem canonicalMembers_eq_map (members : List (Text × Json)) :
    canonicalMembers members = members.map fun m => (m.1, canonical m.2) := by
  induction members with
  | nil => rfl
  | cons m members ih => rw [canonicalMembers, ih, List.map_cons]

/-- **The order of members is nothing to their canonical text.** -/
theorem canonical_obj_eq_of_perm {members members' : List (Text × Json)} (h : members.Perm members')
    (hkeys : (members.map (·.1)).Nodup) :
    (Json.obj members).canonical = (Json.obj members').canonical := by
  have hwritten : ((canonicalMembers members).map (·.1)).Nodup := by
    rw [canonicalMembers_eq_map, List.map_map]
    exact hkeys
  have hperm : (canonicalMembers members).Perm (canonicalMembers members') := by
    rw [canonicalMembers_eq_map, canonicalMembers_eq_map]
    exact h.map _
  rw [canonical, canonical]
  exact congrArg (fun written => '\x7b' :: [','].intercalate (written.map member) ++ ['\x7d'])
    ((mergeSort_key_eq_iff (fun _ _ => Char.toNat_inj.1) hwritten).2 hperm)

end Json

end NetlistPrep
