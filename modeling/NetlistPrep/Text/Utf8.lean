import NetlistPrep.Text

/-!
# UTF-8

Reading octets as text, strictly: no surrogates, no overlong forms, nothing above U+10FFFF. The
reader takes one octet at a time and keeps what is still open of a character (`Open`). The first
octet that cannot go on decides where a text is refused and why.
-/

namespace NetlistPrep

/-- The octets of a file or stream. -/
abbrev Octets := List UInt8

namespace Utf8

inductive Reason
  | startOctet
  | continuationOctet
  | endOfData
deriving DecidableEq, Repr

/-- The octets that are refused: where the first of them stands, what it is, and how many there are.
-/
structure Refusal where
  position : Nat
  octet : UInt8
  count : Nat
  reason : Reason
deriving DecidableEq, Repr

/-- A character whose first `seen` octets were read: `need` more octets follow, the next of them
between `low` and `high`, and `value` is the number read so far. -/
structure Open where
  first : UInt8
  seen : Nat
  need : Nat
  low : Nat
  high : Nat
  value : Nat
deriving DecidableEq, Repr

/-- What a first octet announces: a whole character, or one that stays open. -/
def lead (b : UInt8) : Option (Char ⊕ Open) :=
  let n := b.toNat
  if n < 0x80 then some (.inl (Char.ofNat n))
  else if n < 0xC2 then none
  else if n < 0xE0 then some (.inr ⟨b, 1, 1, 0x80, 0xBF, n - 0xC0⟩)
  else if n < 0xF0 then
    let low := if n = 0xE0 then 0xA0 else 0x80
    let high := if n = 0xED then 0x9F else 0xBF
    some (.inr ⟨b, 1, 2, low, high, n - 0xE0⟩)
  else if n < 0xF5 then
    let low := if n = 0xF0 then 0x90 else 0x80
    let high := if n = 0xF4 then 0x8F else 0xBF
    some (.inr ⟨b, 1, 3, low, high, n - 0xF0⟩)
  else none

/-- Takes the next octet of an open character. -/
def Open.next (o : Open) (b : UInt8) : Option (Char ⊕ Open) :=
  if o.low ≤ b.toNat && b.toNat ≤ o.high then
    let value := o.value * 64 + (b.toNat - 0x80)
    if o.need = 1 then some (.inl (Char.ofNat value))
    else
      let seen := o.seen + 1
      some (.inr { o with seen, need := o.need - 1, low := 0x80, high := 0xBF, value })
  else none

/-- Reads octets from position `pos` on; `start` is the character that is open there. -/
def decodeFrom (pos : Nat) (start : Option Open) : Octets → Except Refusal Text
  | [] =>
    match start with
    | none => .ok []
    | some o => .error ⟨pos - o.seen, o.first, o.seen, .endOfData⟩
  | b :: rest =>
    match start with
    | none =>
      match lead b with
      | some (.inl c) => (decodeFrom (pos + 1) none rest).map (c :: ·)
      | some (.inr o) => decodeFrom (pos + 1) (some o) rest
      | none => .error ⟨pos, b, 1, .startOctet⟩
    | some o =>
      match o.next b with
      | some (.inl c) => (decodeFrom (pos + 1) none rest).map (c :: ·)
      | some (.inr o') => decodeFrom (pos + 1) (some o') rest
      | none => .error ⟨pos - o.seen, o.first, o.seen, .continuationOctet⟩

def decode (octets : Octets) : Except Refusal Text := decodeFrom 0 none octets

def encode (t : Text) : Octets := (String.ofList t).toUTF8.toList

def Reason.message : Reason → String
  | .startOctet => "invalid start byte"
  | .continuationOctet => "invalid continuation byte"
  | .endOfData => "unexpected end of data"

def Refusal.message (r : Refusal) : String :=
  let octets :=
    if r.count = 1 then
      s!"byte 0x{String.ofList (Nat.toDigits 16 r.octet.toNat)} in position {r.position}"
    else s!"bytes in position {r.position}-{r.position + r.count - 1}"
  "'utf-8' codec can't decode " ++ octets ++ ": " ++ r.reason.message

end Utf8

end NetlistPrep
