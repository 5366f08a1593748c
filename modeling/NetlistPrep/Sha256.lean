import NetlistPrep.Text.Utf8
import NetlistPrep.Text.Quoted

/-!
# SHA-256

The SHA-256 digest of octets, as 64 hexadecimal digits.

* `pad` closes a message and fills it up to whole blocks of 64 octets (`length_pad_mod`).
* `schedule` extends the sixteen words of a block to the sixty-four that the rounds use.
* `compress` runs the rounds of one block; `digest` folds it over all blocks.
-/

namespace NetlistPrep.Sha256

/-- The words that the rounds add: fractional parts of the cube roots of the first 64 primes. -/
def roundConstants : List UInt32 :=
  [0x428a2f98, 0x71374491, 0xb5c0fbcf, 0xe9b5dba5, 0x3956c25b, 0x59f111f1, 0x923f82a4, 0xab1c5ed5,
   0xd807aa98, 0x12835b01, 0x243185be, 0x550c7dc3, 0x72be5d74, 0x80deb1fe, 0x9bdc06a7, 0xc19bf174,
   0xe49b69c1, 0xefbe4786, 0x0fc19dc6, 0x240ca1cc, 0x2de92c6f, 0x4a7484aa, 0x5cb0a9dc, 0x76f988da,
   0x983e5152, 0xa831c66d, 0xb00327c8, 0xbf597fc7, 0xc6e00bf3, 0xd5a79147, 0x06ca6351, 0x14292967,
   0x27b70a85, 0x2e1b2138, 0x4d2c6dfc, 0x53380d13, 0x650a7354, 0x766a0abb, 0x81c2c92e, 0x92722c85,
   0xa2bfe8a1, 0xa81a664b, 0xc24b8b70, 0xc76c51a3, 0xd192e819, 0xd6990624, 0xf40e3585, 0x106aa070,
   0x19a4c116, 0x1e376c08, 0x2748774c, 0x34b0bcb5, 0x391c0cb3, 0x4ed8aa4a, 0x5b9cca4f, 0x682e6ff3,
   0x748f82ee, 0x78a5636f, 0x84c87814, 0x8cc70208, 0x90befffa, 0xa4506ceb, 0xbef9a3f7, 0xc67178f2]

/-- The eight words that the rounds work on. -/
structure State where
  a : UInt32
  b : UInt32
  c : UInt32
  d : UInt32
  e : UInt32
  f : UInt32
  g : UInt32
  h : UInt32
deriving DecidableEq, Repr

/-- The words before the first block: fractional parts of the square roots of the first 8 primes. -/
def State.start : State :=
  ⟨0x6a09e667, 0xbb67ae85, 0x3c6ef372, 0xa54ff53a, 0x510e527f, 0x9b05688c, 0x1f83d9ab, 0x5be0cd19⟩

def State.add (s t : State) : State :=
  ⟨s.a + t.a, s.b + t.b, s.c + t.c, s.d + t.d, s.e + t.e, s.f + t.f, s.g + t.g, s.h + t.h⟩

def State.words (s : State) : List UInt32 := [s.a, s.b, s.c, s.d, s.e, s.f, s.g, s.h]

def rotate (x : UInt32) (n : UInt32) : UInt32 := (x >>> n) ||| (x <<< (32 - n))

/-- The number in eight octets, most significant first. -/
def lengthOctets (n : Nat) : Octets :=
  (List.range 8).map fun i => UInt8.ofNat (n / Nat.pow 256 (7 - i))

/-- A message with its closing octet, zeros, and its length in bits. -/
def pad (message : Octets) : Octets :=
  message ++ 0x80 :: List.replicate ((119 - message.length % 64) % 64) 0
    ++ lengthOctets (8 * message.length)

/-- A padded message fills whole blocks. -/
theorem length_pad_mod (message : Octets) : (pad message).length % 64 = 0 := by
  simp [pad, lengthOctets]
  omega

/-- The words that octets write, four to a word. -/
def wordsOf : Octets → List UInt32
  | p :: q :: r :: s :: rest =>
    (p.toUInt32 <<< 24 ||| q.toUInt32 <<< 16 ||| r.toUInt32 <<< 8 ||| s.toUInt32) :: wordsOf rest
  | _ => []

/-- The next word of a schedule, from the sixteen words before it. -/
def nextWord (recent : Array UInt32) : UInt32 :=
  let w1 := recent.getD 1 0
  let w14 := recent.getD 14 0
  let s0 := rotate w1 7 ^^^ rotate w1 18 ^^^ (w1 >>> 3)
  let s1 := rotate w14 17 ^^^ rotate w14 19 ^^^ (w14 >>> 10)
  recent.getD 0 0 + s0 + recent.getD 9 0 + s1

/-- The words of the rounds: `count` of them, from the sixteen next ones on. -/
def schedule : Nat → Array UInt32 → List UInt32
  | 0, _ => []
  | count + 1, recent =>
    recent.getD 0 0 :: schedule count ((recent.extract 1 16).push (nextWord recent))

/-- One round: `k` is its constant and `w` its word of the schedule. -/
def round (s : State) (k w : UInt32) : State :=
  let sum1 := rotate s.e 6 ^^^ rotate s.e 11 ^^^ rotate s.e 25
  let choice := (s.e &&& s.f) ^^^ ((s.e ^^^ 0xffffffff) &&& s.g)
  let t1 := s.h + sum1 + choice + k + w
  let sum0 := rotate s.a 2 ^^^ rotate s.a 13 ^^^ rotate s.a 22
  let majority := (s.a &&& s.b) ^^^ (s.a &&& s.c) ^^^ (s.b &&& s.c)
  ⟨t1 + (sum0 + majority), s.a, s.b, s.c, s.d + t1, s.e, s.f, s.g⟩

/-- Takes one block of sixteen words into the state. -/
def compress (s : State) (block : List UInt32) : State :=
  s.add ((roundConstants.zip (schedule 64 block.toArray)).foldl (fun t kw => round t kw.1 kw.2) s)

/-- The blocks of a row of words, sixteen words each; `count` is how many there are. -/
def blocks : Nat → List UInt32 → List (List UInt32)
  | 0, _ => []
  | count + 1, words => words.take 16 :: blocks count (words.drop 16)

/-- The state after all blocks of a message. -/
def digest (message : Octets) : State :=
  let words := wordsOf (pad message)
  (blocks (words.length / 16) words).foldl compress .start

/-- The digest of a message in hexadecimal digits. -/
def hexDigest (message : Octets) : Text :=
  (digest message).words.flatMap fun w => Text.hex 8 w.toNat

end NetlistPrep.Sha256
