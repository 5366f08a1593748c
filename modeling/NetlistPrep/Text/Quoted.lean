import NetlistPrep.Text.Printable

/-!
# Quoted text

How a text is shown in a message: between quotation marks, with escapes for what would not show.

* Single marks, unless the text holds a single mark and no double one.
* The backslash, the mark in use, line feed, carriage return and tab get a letter escape.
* Any other character that is not printable gets the shortest of `\x`, `\u`, `\U` with two, four or
  eight hexadecimal digits.
-/

namespace NetlistPrep.Text

/-- The last `width` hexadecimal digits of a number, in lower case. -/
def hex (width n : Nat) : Text :=
  List.replicate (width - (Nat.toDigits 16 n).length) '0' ++ Nat.toDigits 16 n

def quotedChar (mark c : Char) : Text :=
  if c == mark || c == '\\' then ['\\', c]
  else if c == '\n' then ['\\', 'n']
  else if c == '\r' then ['\\', 'r']
  else if c == '\t' then ['\\', 't']
  else if isPrintable c then [c]
  else if c.toNat < 0x100 then '\\' :: 'x' :: hex 2 c.toNat
  else if c.toNat < 0x10000 then '\\' :: 'u' :: hex 4 c.toNat
  else '\\' :: 'U' :: hex 8 c.toNat

def quoteMark (t : Text) : Char :=
  if t.contains '\x27' && !t.contains '"' then '"' else '\x27'

/-- A text as messages show it. -/
def quoted (t : Text) : Text :=
  quoteMark t :: t.flatMap (quotedChar (quoteMark t)) ++ [quoteMark t]

end NetlistPrep.Text
