/-
# Blank characters and trimming

A character is blank if it has the Unicode property White_Space or is one of
the four information separators U+001C to U+001F. Trimming removes blank
characters from the ends of a text and from nowhere else.

Key definitions: `isBlank`, `Text.stripStart`, `Text.stripEnd`, `Text.strip`.
-/
import Handout.Text.Basic

namespace Handout

/-- The blank characters: tabs, line and page breaks, the information
separators, and every Unicode space. -/
def isBlank (c : Char) : Bool :=
  let n := c.toNat
  (0x09 ≤ n && n ≤ 0x0D) || (0x1C ≤ n && n ≤ 0x20) || n == 0x85 || n == 0xA0 || n == 0x1680
    || (0x2000 ≤ n && n ≤ 0x200A) || n == 0x2028 || n == 0x2029 || n == 0x202F || n == 0x205F
    || n == 0x3000

namespace Text

/-- Removes the blank characters in front. -/
def stripStart (t : Text) : Text :=
  t.dropWhile isBlank

/-- Removes the blank characters at the end: a character stays if it is not
blank or something that stays follows it. -/
def stripEnd : Text → Text
  | [] => []
  | c :: r =>
    match stripEnd r with
    | [] => if isBlank c then [] else [c]
    | kept => c :: kept

/-- Removes the blank characters at both ends. -/
def strip (t : Text) : Text :=
  stripEnd (stripStart t)

end Text
end Handout
