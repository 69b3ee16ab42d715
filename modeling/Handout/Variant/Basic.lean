/-
# Variants and their comment state

A variant is a block of lines. A line is live if it has a character that is not
blank and its first such characters are not the comment mark; a block is live
if one of its lines is.

Rendering brings a whole block into the wanted state. A live block is commented
by a mark on every line that is not blank, in the column of the snippet if the
line is indented that far, else right before its code. A block without live
lines is uncommented by taking one mark from every line that is not blank. A
block in the wanted state stays as it is.

Key definitions: `isLive`, `Variant`, `Variant.ofLines`, `Variant.ofBlock`,
`commentLine`, `uncommentLine`, `Variant.render`.
-/
import Handout.FormatError
import Handout.Markup.Marker
import Handout.Text.Blank
import Handout.Text.Line

namespace Handout

/-- The blank characters that begin a line. -/
def leading (line : Text) : Text :=
  line.takeWhile isBlank

/-- A line without the blank characters that begin it. -/
def content (line : Text) : Text :=
  line.dropWhile isBlank

/-- A live line has content that is not a comment. -/
def isLive (line : Text) : Bool :=
  !(content line).isEmpty && !commentMark.isPrefixOf (content line)

/-- A block of lines, and whether it counts as live. -/
structure Variant where
  lines : List Text
  live : Bool
deriving Repr, DecidableEq

namespace Variant

/-- The variant with the given lines, live if one of them is. -/
def ofLines (lines : List Text) : Variant :=
  ⟨lines, lines.any isLive⟩

/-- The variant in a block of text, trimmed at both ends. A block of blank
characters alone has no lines. -/
def ofBlock (block : Text) : Variant :=
  if block.strip = [] then ofLines [] else ofLines block.strip.lines

/-- A short description: the number of lines and the state. -/
def describe (v : Variant) : Text :=
  "Variant(".toList ++ Text.ofNat v.lines.length ++ " lines, ".toList
    ++ (if v.live then "live".toList else "commented".toList) ++ [')']

end Variant

/-- Adds a comment mark to a line that is not blank. -/
def commentLine (indentation line : Text) : Text :=
  if (content line).isEmpty then line
  else if indentation.isPrefixOf (leading line) then
    indentation ++ commentMark ++ (leading line).drop indentation.length ++ content line
  else leading line ++ commentMark ++ content line

/-- Takes a comment mark from a line that is not blank. -/
def uncommentLine (line : Text) : Except FormatError Text :=
  if (content line).isEmpty then .ok line
  else if commentMark.isPrefixOf (content line) then
    .ok (leading line ++ (content line).drop commentMark.length)
  else .error (.uncommentedLine line)

/-- Takes a comment mark from every line that is not blank. -/
def uncommentLines : List Text → Except FormatError (List Text)
  | [] => .ok []
  | line :: r => do
    let first ← uncommentLine line
    let rest ← uncommentLines r
    return first :: rest

/-- The lines of a variant in the wanted state, joined by line feeds. -/
def Variant.render (v : Variant) (wantLive : Bool) (indentation : Text) :
    Except FormatError Text :=
  match wantLive, v.live with
  | false, true => .ok (Text.joinWith ['\n'] (v.lines.map (commentLine indentation)))
  | true, false => do return Text.joinWith ['\n'] (← uncommentLines v.lines)
  | _, _ => .ok (Text.joinWith ['\n'] v.lines)

end Handout
