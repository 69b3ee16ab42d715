/-
# Word characters

Names of tags and keys of attributes are runs of word characters: letters,
numerals and the low line.

Key definitions: `isWord`, `Text.word`, `Text.afterWord`.
-/
import Handout.Text.Basic
import Handout.Text.WordRanges

namespace Handout

/-- Does some range, both ends included, contain `n`? -/
def inRanges (n : Nat) (ranges : List (Nat × Nat)) : Bool :=
  ranges.any fun r => r.1 ≤ n && n ≤ r.2

/-- A word character is a letter, a character with a numeric value, or `_`. -/
def isWord (c : Char) : Bool :=
  if c.toNat < 0x80 then c.isAlphanum || c == '_' else inRanges c.toNat wordRanges

namespace Text

/-- The longest run of word characters in front. -/
def word (t : Text) : Text :=
  t.takeWhile isWord

/-- What follows the longest run of word characters in front. -/
def afterWord (t : Text) : Text :=
  t.dropWhile isWord

end Text
end Handout
