/-
# Quoted texts

Messages quote a text between single quotes, or between double quotes if it
holds a single quote and no double quote. Inside, the backslash and the
surrounding quote are written after a backslash, and a character that stands
for nothing visible is written as an escape: `\t`, `\n`, `\r`, or its code in
two, four or eight hexadecimal digits.

Key definitions: `Text.hex`, `isHidden`, `Text.quoteMark`, `Text.quoted`.
-/
import Handout.Text.HiddenRanges
import Handout.Text.Word

namespace Handout

/-- Does the character stand for nothing visible? -/
def isHidden (c : Char) : Bool :=
  if c.toNat < 0x80 then c.toNat < 0x20 || c.toNat == 0x7F else inRanges c.toNat hiddenRanges

namespace Text

/-- The last `width` hexadecimal digits of a number, in lower case. -/
def hex (width n : Nat) : Text :=
  let digits := Nat.toDigits 16 n
  List.replicate (width - digits.length) '0' ++ digits

/-- The quote that surrounds a text. -/
def quoteMark (t : Text) : Char :=
  if t.contains '\'' && !t.contains '"' then '"' else '\''

/-- A character inside of a quoted text. -/
def quotedChar (mark c : Char) : Text :=
  if c = mark || c = '\\' then ['\\', c]
  else if c = '\t' then ['\\', 't']
  else if c = '\n' then ['\\', 'n']
  else if c = '\r' then ['\\', 'r']
  else if !isHidden c then [c]
  else if c.toNat < 0x100 then ['\\', 'x'] ++ hex 2 c.toNat
  else if c.toNat < 0x10000 then ['\\', 'u'] ++ hex 4 c.toNat
  else ['\\', 'U'] ++ hex 8 c.toNat

/-- A text between quotes. -/
def quoted (t : Text) : Text :=
  [quoteMark t] ++ t.flatMap (quotedChar (quoteMark t)) ++ [quoteMark t]

end Text
end Handout
