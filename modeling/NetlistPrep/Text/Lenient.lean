import NetlistPrep.Text.Utf8
import NetlistPrep.Text.Wide

/-!
# Reading octets leniently

A lenient reader takes every octet. Those that the strict reader would refuse become surrogates, one
for each octet, and reading goes on behind them.
-/

namespace NetlistPrep.Utf8

/-- The surrogate that stands for an octet: U+DC00 and the number of the octet. -/
def stray (b : UInt8) : CodePoint := .surrogate (.ofNat _ (0x400 + b.toNat))

/-- Reads an octet behind which no character is open, and goes on with what is left. -/
def lenientLead (b : UInt8) (goOn : Option (Open × Octets) → WideText) : WideText :=
  match lead b with
  | some (.inl c) => .char c :: goOn none
  | some (.inr o) => goOn (some (o, [b]))
  | none => stray b :: goOn none

/-- Reads octets behind a character that is open, with the octets that it had so far. -/
def lenientFrom (start : Option (Open × Octets)) : Octets → WideText
  | [] => ((start.map (·.2)).getD []).map stray
  | b :: rest =>
    match start with
    | none => lenientLead b fun s => lenientFrom s rest
    | some (o, seen) =>
      match o.next b with
      | some (.inl c) => .char c :: lenientFrom none rest
      | some (.inr o') => lenientFrom (some (o', seen ++ [b])) rest
      | none => seen.map stray ++ lenientLead b fun s => lenientFrom s rest

def decodeLenient (octets : Octets) : WideText := lenientFrom none octets

end NetlistPrep.Utf8
