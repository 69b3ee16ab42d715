/-
# Places in a document

Indentation carries meaning, so a reader of a document knows at each place
what follows, in which line it stands, and how many characters precede it in
that line. Between two parts of a document lies a gap of spaces, line breaks
and comments; a tab is no part of a gap.

A line that begins with `---` or `...` and then a blank or its end marks where a
document begins or ends.

Key definitions: `Cursor`, `Cursor.gap`, `Cursor.isMarker`, `Cursor.atEnd`.
-/
import Handout.Text.Basic

namespace Handout

/-- Does the character end a line? -/
def isLineBreak (c : Char) : Bool :=
  c == '\n' || c == '\u0085' || c == '\u2028' || c == '\u2029'

/-- Does the character separate words? -/
def isSeparator (c : Char) : Bool :=
  c == ' ' || c == '\t' || isLineBreak c

/-- Does a text begin with a separator, or is it empty? -/
def beginsBlank : Text → Bool
  | [] => true
  | c :: _ => isSeparator c

/-- A place: what follows, the line, and the column in that line. -/
structure Cursor where
  rest : Text
  line : Nat
  column : Nat
deriving Repr, DecidableEq

namespace Cursor

/-- The place where a text begins. -/
def start (t : Text) : Cursor :=
  ⟨t, 0, 0⟩

/-- The place `n` characters further in the same line. -/
def skip (n : Nat) (c : Cursor) : Cursor :=
  ⟨c.rest.drop n, c.line, c.column + n⟩

/-- The place after a gap that begins in the given line and column, possibly
inside of a comment. -/
def gapFrom (comment : Bool) (line column : Nat) : Text → Cursor
  | [] => ⟨[], line, column⟩
  | c :: r =>
    if isLineBreak c then gapFrom false (line + 1) 0 r
    else if comment then gapFrom true line (column + 1) r
    else if c = ' ' then gapFrom false line (column + 1) r
    else if c = '#' then gapFrom true line (column + 1) r
    else ⟨c :: r, line, column⟩

/-- The place after a gap. -/
def gap (c : Cursor) : Cursor :=
  gapFrom false c.line c.column c.rest

/-- Does a mark stand here, in front of a blank or the end? -/
def isMark (mark : Text) (c : Cursor) : Bool :=
  mark.isPrefixOf c.rest && beginsBlank (c.rest.drop mark.length)

/-- Does a document begin here? -/
def isOpening (c : Cursor) : Bool :=
  c.column == 0 && c.isMark ['-', '-', '-']

/-- Does a document end here by a mark? -/
def isClosing (c : Cursor) : Bool :=
  c.column == 0 && c.isMark ['.', '.', '.']

/-- Is here a mark that begins or ends a document? -/
def isMarker (c : Cursor) : Bool :=
  c.isOpening || c.isClosing

/-- Does nothing of the document follow? -/
def atEnd (c : Cursor) : Bool :=
  c.rest.isEmpty || c.isMarker

end Cursor
end Handout
