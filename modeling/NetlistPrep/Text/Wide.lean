import NetlistPrep.Text.Quoted

/-!
# Wide texts

A program that does not check its code points may hold surrogates in a text, which are no characters
(`CodePoint`). No file takes them, but names and the texts of lenient streams may have them.

* `WideText.toText?` gives the text back where there is no surrogate.
* `CodePoint.units` are the units of UTF-16. A surrogate has itself as its unit, so the two halves
  of a pair have the units of one character.
* `WideText.standIn` writes a private character behind a mark for every surrogate, so that what
  looks for blanks, letters, digits and signs can go over the text as over any other;
  `WideText.ofStandIn` takes it back.
-/

namespace NetlistPrep

theorem Text.toNat_ofNat_of_isValidChar {n : Nat} (h : n.isValidChar) :
    (Char.ofNat n).toNat = n := by
  rw [Char.ofNat, dif_pos h]
  rfl

/-- The code points from U+D800 to U+DFFF, by their places among them. -/
abbrev Surrogate := Fin 0x800

inductive CodePoint
  | char (c : Char)
  | surrogate (s : Surrogate)
deriving DecidableEq, Repr

/-- A text that may hold surrogates. -/
abbrev WideText := List CodePoint

namespace CodePoint

def value : CodePoint → Nat
  | .char c => c.toNat
  | .surrogate s => 0xD800 + s.val

/-- The first half of a pair. -/
def isHigh : CodePoint → Bool
  | .char _ => false
  | .surrogate s => s.val < 0x400

/-- The second half of a pair. -/
def isLow : CodePoint → Bool
  | .char _ => false
  | .surrogate s => 0x400 ≤ s.val

/-- The UTF-16 units of a code point. -/
def units : CodePoint → List UInt16
  | .char c =>
    if c.toNat < 0x10000 then [.ofNat c.toNat]
    else
      let n := c.toNat - 0x10000
      [.ofNat (0xD800 + n / 0x400), .ofNat (0xDC00 + n % 0x400)]
  | .surrogate s => [.ofNat (0xD800 + s.val)]

/-- A code point as messages show it: a surrogate by its number. -/
def shown : CodePoint → Text
  | .char c => [c]
  | p => '\\' :: 'u' :: Text.hex 4 p.value

end CodePoint

namespace WideText

def ofText (t : Text) : WideText := t.map .char

theorem ofText_inj {s t : Text} : ofText s = ofText t ↔ s = t :=
  List.map_inj_right fun _ _ => CodePoint.char.inj

/-- The text, if there is no surrogate in it. -/
def toText? : WideText → Option Text
  | [] => some []
  | .char c :: r => (toText? r).map (c :: ·)
  | .surrogate _ :: _ => none

/-- The characters of a wide text. -/
def chars (w : WideText) : Text :=
  w.filterMap fun p =>
    match p with
    | .char c => some c
    | .surrogate _ => none

def shown (w : WideText) : Text := w.flatMap CodePoint.shown

/-- The code points order wide texts as a dictionary does. -/
def le (s t : WideText) : Bool := Text.leBy CodePoint.value s t

/-- No first half of a pair stands right before a second one. -/
def unpaired : WideText → Bool
  | [] => true
  | [_] => true
  | p :: q :: r => !(p.isHigh && q.isLow) && unpaired (q :: r)

/-! ## Stand-ins -/

/-- The mark in front of the private characters that stand in for surrogates, and of itself. -/
def mark : Char := Char.ofNat 0x10FFFF

/-- Where the private characters begin. -/
def firstStandIn : Nat := 0x10F000

end WideText

open WideText in
def CodePoint.standIn : CodePoint → Text
  | .char c => if c = mark then [mark, mark] else [c]
  | .surrogate s => [mark, Char.ofNat (firstStandIn + s.val)]

namespace WideText

theorem toNat_ofNat_firstStandIn_add (s : Surrogate) :
    (Char.ofNat (firstStandIn + s.val)).toNat = firstStandIn + s.val := by
  have hs := s.isLt
  refine Text.toNat_ofNat_of_isValidChar (.inr ?_)
  unfold firstStandIn
  omega

def standIn (w : WideText) : Text := w.flatMap CodePoint.standIn

/-- What a character behind the mark stands for. -/
def marked (c : Char) : CodePoint :=
  if h : firstStandIn ≤ c.toNat ∧ c.toNat < firstStandIn + 0x800 then
    .surrogate ⟨c.toNat - firstStandIn, by omega⟩
  else .char c

def ofStandIn : Text → WideText
  | [] => []
  | [c] => [.char c]
  | c :: d :: r => if c = mark then marked d :: ofStandIn r else .char c :: ofStandIn (d :: r)

theorem ofStandIn_append (p : CodePoint) (t : Text) :
    ofStandIn (p.standIn ++ t) = p :: ofStandIn t := by
  cases p with
  | char c =>
    by_cases hc : c = mark
    · subst hc
      rfl
    · cases t <;> simp [CodePoint.standIn, ofStandIn, hc]
  | surrogate s =>
    have hmarked : marked (Char.ofNat (firstStandIn + s.val)) = .surrogate s := by
      simp [marked, toNat_ofNat_firstStandIn_add]
    simp [CodePoint.standIn, ofStandIn, hmarked]

/-- **Stand-ins can be taken back.** -/
theorem ofStandIn_standIn (w : WideText) : ofStandIn (standIn w) = w := by
  induction w with
  | nil => rfl
  | cons p w ih =>
    rw [standIn, List.flatMap_cons, ofStandIn_append]
    exact congrArg (p :: ·) ih

theorem standIn_inj {v w : WideText} : standIn v = standIn w ↔ v = w := by
  refine ⟨fun h => ?_, congrArg standIn⟩
  rw [← ofStandIn_standIn v, h, ofStandIn_standIn]

/-- What a function of texts makes of a wide text. Only where there are surrogates, it is given
stand-ins for them. -/
def through (f : Text → Text) (w : WideText) : WideText :=
  match toText? w with
  | some t => ofText (f t)
  | none => ofStandIn (f (standIn w))

end WideText

end NetlistPrep
