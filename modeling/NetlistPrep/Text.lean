/-!
# Texts

A text is the list of its characters. Every rule of this library is stated on texts; `String` occurs
only where text enters or leaves the program and in the wording of messages. Surrogates are no
characters. Where they may come in, there are wide texts (`WideText`).

* `split` cuts a text at separators and loses nothing else (`intercalate_split`).
* `replaceAll` rewrites the occurrences of a word from left to right.
* `after?`, `before` are the two sides of a first occurrence.
-/

namespace NetlistPrep

/-- A text: its characters, in order. -/
abbrev Text := List Char

instance : LawfulBEq Text := inferInstance

namespace Text

def ofNat (n : Nat) : Text := Nat.toDigits 10 n

/-- The decimal digits of an integer, behind a minus sign where it is negative. -/
def ofInt : Int → Text
  | .ofNat n => ofNat n
  | .negSucc n => '-' :: ofNat (n + 1)

/-- The order of a dictionary for rows of signs that are numbered; a shorter row comes first. -/
def leBy {α : Type} (number : α → Nat) : List α → List α → Bool
  | [], _ => true
  | _ :: _, [] => false
  | a :: s, b :: t => number a < number b || (number a == number b && leBy number s t)

/-- The code points order texts as a dictionary does. -/
def le (s t : Text) : Bool := leBy Char.toNat s t

/-! ## Cutting -/

/-- The pieces between separators: always one more than there are separators. -/
def split (sep : Char → Bool) : Text → List Text
  | [] => [[]]
  | c :: r =>
    if sep c then [] :: split sep r
    else match split sep r with
      | [] => [[c]]
      | piece :: pieces => (c :: piece) :: pieces

theorem split_ne_nil (sep : Char → Bool) (t : Text) : split sep t ≠ [] := by
  cases t with
  | nil => simp [split]
  | cons c r =>
    unfold split
    split
    · simp
    · split <;> simp

theorem not_sep_of_mem_split {sep : Char → Bool} {t piece : Text} (h : piece ∈ split sep t) :
    ∀ c ∈ piece, sep c = false := by
  induction t generalizing piece with
  | nil => simp_all [split]
  | cons c r ih =>
    unfold split at h
    split at h
    · rcases List.mem_cons.1 h with rfl | h
      · simp
      · exact ih h
    · rename_i hc
      split at h
      · simp_all
      · rename_i p ps hp
        rcases List.mem_cons.1 h with rfl | h
        · intro x hx
          rcases List.mem_cons.1 hx with rfl | hx
          · simpa using hc
          · exact ih (by simp [hp]) x hx
        · exact ih (by simp [hp, h])

/-- Joining the pieces gives the text back. -/
theorem intercalate_split (d : Char) (t : Text) : [d].intercalate (split (· == d) t) = t := by
  induction t with
  | nil => rfl
  | cons c r ih =>
    unfold split
    split
    · rename_i hc
      obtain ⟨p, ps, hp⟩ := List.exists_cons_of_ne_nil (split_ne_nil (· == d) r)
      simp_all [List.intercalate_cons_cons]
    · split
      · rename_i h
        exact absurd h (split_ne_nil _ _)
      · rename_i p ps hp
        cases ps <;> simp_all [List.intercalate_cons_cons]

/-- The part before the first `stop`, or all of it. -/
def before (stop : Char) (t : Text) : Text := t.takeWhile (· != stop)

/-- The part after the first occurrence of `word`. -/
def after? (word : Text) : Text → Option Text
  | [] => if word = [] then some [] else none
  | c :: r =>
    if word.isPrefixOf (c :: r) then some ((c :: r).drop word.length) else after? word r

/-- The text without the characters of a class at its end. -/
def dropEnd (p : Char → Bool) (t : Text) : Text := (t.reverse.dropWhile p).reverse

/-! ## Replacing -/

/-- `new` in front of every character and at the end. -/
def interleave (new : Text) : Text → Text
  | [] => new
  | c :: r => new ++ c :: interleave new r

/-- `replaceFrom old new k t` leaves out the next `k` characters, which belong to an occurrence that
was already written as `new`. -/
def replaceFrom (old new : Text) : Nat → Text → Text
  | _, [] => []
  | k + 1, _ :: r => replaceFrom old new k r
  | 0, c :: r =>
    if old.isPrefixOf (c :: r) then new ++ replaceFrom old new (old.length - 1) r
    else c :: replaceFrom old new 0 r

/-- Every occurrence of `old`, found from the left and never overlapping, becomes `new`. The empty
word occurs in front of every character and at the end. -/
def replaceAll (old new t : Text) : Text :=
  if old = [] then interleave new t else replaceFrom old new 0 t

end Text

end NetlistPrep
