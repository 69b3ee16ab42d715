/-
# Texts as lists of characters

Sources, names and messages are lists of characters, so that a position or a
length always counts characters and a scanner is a recursion on the text.

Key definitions: `Text`, `Text.slice`, `Text.joinWith`, `Text.splitAt`,
`Text.ofNat`, `Text.ofInt`, `Text.padRight`.
-/
namespace Handout

/-- A text is the list of its characters. -/
abbrev Text := List Char

namespace Text

/-- The characters of `t` from index `start` on, `length` of them or as many
as there are. -/
def slice (t : Text) (start length : Nat) : Text :=
  (t.drop start).take length

/-- The texts one after another with `sep` between neighbours. -/
def joinWith (sep : Text) : List Text → Text
  | [] => []
  | [t] => t
  | t :: u :: r => t ++ sep ++ joinWith sep (u :: r)

/-- Puts a character in front of the first of several texts. -/
def consHead (c : Char) : List Text → List Text
  | [] => [[c]]
  | t :: r => (c :: t) :: r

/-- The pieces of a text between the occurrences of `sep`; `n` occurrences
make `n + 1` pieces. -/
def splitAt (sep : Char) : Text → List Text
  | [] => [[]]
  | c :: r => if c = sep then [] :: splitAt sep r else consHead c (splitAt sep r)

/-- The decimal digits of a number. -/
def ofNat (n : Nat) : Text :=
  Nat.toDigits 10 n

/-- The decimal digits of an integer, after a minus sign if it is negative. -/
def ofInt (n : Int) : Text :=
  if n < 0 then '-' :: ofNat n.natAbs else ofNat n.natAbs

/-- Fills a text with spaces on the right up to `width` characters. -/
def padRight (width : Nat) (t : Text) : Text :=
  t ++ List.replicate (width - t.length) ' '

end Text
end Handout
