/-
# Scalars as they are written

A scalar is written plain, between single quotes or between double quotes, and
may go on over several lines: one line break between two of its words counts
as a space, and of several breaks all but the first are kept.

A plain scalar ends at a comment, at a colon in front of a blank, at a line
that is not indented enough and, inside of brackets, at a mark that divides
them. Between single quotes a doubled quote is one quote. Between double quotes
a backslash begins an escape.

Key definitions: `Cursor.plain`, `Cursor.singleQuoted`, `Cursor.doubleQuoted`.
-/
import Handout.Yaml.Cursor
import Handout.Yaml.Scalar

namespace Handout

/-- Does the character divide the items between brackets? -/
def isDivider (c : Char) : Bool :=
  c == ',' || c == '[' || c == ']' || c == '\x7b' || c == '\x7d'

/-- Does what follows a colon make it end a key? -/
def endsKey (inBrackets : Bool) : Text → Bool
  | [] => true
  | c :: _ => isSeparator c || (inBrackets && isDivider c)

/-- The longest piece of a plain scalar in front of a text, without blanks. -/
def plainRun (inBrackets : Bool) : Text → Text
  | [] => []
  | c :: r =>
    if isSeparator c || (c = ':' && endsKey inBrackets r)
        || (inBrackets && (isDivider c || c = '?')) then []
    else c :: plainRun inBrackets r

/-- Can a plain scalar begin with this text? -/
def beginsPlain (inBrackets : Bool) : Text → Bool
  | [] => false
  | c :: r =>
    if c = '-' then !beginsBlank r
    else if c = '?' || c = ':' then !inBrackets && !beginsBlank r
    else !isSeparator c && !isDivider c && !"#&*!|>'\"%@`".toList.contains c

/-- What a fold of lines counts as: the first break, and those that follow. -/
def foldedText (first : Char) (more : Text) : Text :=
  if first = '\u2028' ∨ first = '\u2029' then first :: more
  else if more.isEmpty then [' ']
  else more

/-- A line break as it is kept. -/
def keptBreak (c : Char) : Char :=
  if c = '\u0085' then '\n' else c

/-- Passes spaces, possibly tabs, and line breaks: the breaks and the place after
them. -/
def passBreaks (tabs : Bool) (line column : Nat) : Text → Text × Cursor
  | [] => ([], ⟨[], line, column⟩)
  | c :: r =>
    if c = ' ' || (tabs && c = '\t') then passBreaks tabs line (column + 1) r
    else if isLineBreak c then
      let more := passBreaks tabs (line + 1) 0 r
      (keptBreak c :: more.1, more.2)
    else ([], ⟨c :: r, line, column⟩)

namespace Cursor

/-- Passes the blanks between two words of a scalar: what they count as and the
place after them. -/
def passBlanks (tabs : Bool) (c : Cursor) : Text × Cursor :=
  let isSpace := fun d => d == ' ' || (tabs && d == '\t')
  let spaces := c.rest.takeWhile isSpace
  match c.rest.dropWhile isSpace with
  | d :: r =>
    if isLineBreak d then
      let more := passBreaks tabs (c.line + 1) 0 r
      (foldedText d more.1, more.2)
    else (spaces, c.skip spaces.length)
  | [] => (spaces, c.skip spaces.length)

/-- A plain scalar and the place after it. The lines after the first are
indented by at least `least`. -/
def plainFrom (inBrackets : Bool) (least : Nat) : Nat → Cursor → Text × Cursor
  | 0, c => ([], c)
  | fuel + 1, c =>
    let run := plainRun inBrackets c.rest
    let blanks := (c.skip run.length).passBlanks false
    let next := blanks.2
    if blanks.1.isEmpty || next.isMarker || next.rest.head? == some '#'
        || (!inBrackets && next.column < least) || (plainRun inBrackets next.rest).isEmpty then
      (run, next)
    else
      let more := plainFrom inBrackets least fuel next
      (run ++ blanks.1 ++ more.1, more.2)

/-- A plain scalar and the place after it. -/
def plain (inBrackets : Bool) (least : Nat) (c : Cursor) : Text × Cursor :=
  plainFrom inBrackets least c.rest.length c

/-- Puts a text in front of what was read. -/
def prepend (t : Text) : Option (Text × Cursor) → Option (Text × Cursor) :=
  Option.map fun p => (t ++ p.1, p.2)

/-- The rest of a scalar between single quotes and the place after it. -/
def singleFrom : Nat → Cursor → Option (Text × Cursor)
  | 0, _ => none
  | fuel + 1, c =>
    match c.rest with
    | [] => none
    | '\'' :: '\'' :: _ => prepend ['\''] (singleFrom fuel (c.skip 2))
    | '\'' :: _ => some ([], c.skip 1)
    | d :: _ =>
      if isSeparator d then
        let blanks := c.passBlanks true
        if blanks.2.isMarker then none else prepend blanks.1 (singleFrom fuel blanks.2)
      else prepend [d] (singleFrom fuel (c.skip 1))

/-- A scalar between single quotes, of which the first stands here. -/
def singleQuoted (c : Cursor) : Option (Text × Cursor) :=
  singleFrom c.rest.length (c.skip 1)

end Cursor

/-- The characters that one letter after a backslash stands for. -/
def escapes : List (Char × Char) :=
  [('0', '\x00'), ('a', '\x07'), ('b', '\x08'), ('t', '\t'), ('\t', '\t'), ('n', '\n'),
   ('v', '\x0b'), ('f', '\x0c'), ('r', '\r'), ('e', '\x1b'), (' ', ' '), ('"', '"'), ('/', '/'),
   ('\\', '\\'), ('N', '\u0085'), ('_', '\u00a0'), ('L', '\u2028'), ('P', '\u2029')]

/-- The number of hexadecimal digits that a letter after a backslash asks for. -/
def escapeWidth? (c : Char) : Option Nat :=
  if c = 'x' then some 2
  else if c = 'u' then some 4
  else if c = 'U' then some 8
  else none

/-- The character whose code is given by hexadecimal digits. -/
def ofHex? (digits : Text) : Option Char :=
  let isHex := fun c => Plain.isDigit c || ('a' ≤ c && c ≤ 'f') || ('A' ≤ c && c ≤ 'F')
  let n := Plain.number 16 digits
  if digits.all isHex && n.isValidChar then some (Char.ofNat n) else none

namespace Cursor

/-- The rest of a scalar between double quotes and the place after it. -/
def doubleFrom : Nat → Cursor → Option (Text × Cursor)
  | 0, _ => none
  | fuel + 1, c =>
    match c.rest with
    | [] => none
    | '"' :: _ => some ([], c.skip 1)
    | '\\' :: e :: r =>
      match escapes.lookup e, escapeWidth? e with
      | some d, _ => prepend [d] (doubleFrom fuel (c.skip 2))
      | none, some width =>
        match ofHex? (r.take width) with
        | some d =>
          if r.length < width then none
          else prepend [d] (doubleFrom fuel (c.skip (2 + width)))
        | none => none
      | none, none =>
        if isLineBreak e then
          let more := passBreaks true (c.line + 1) 0 r
          if more.2.isMarker then none else prepend more.1 (doubleFrom fuel more.2)
        else none
    | ['\\'] => none
    | d :: _ =>
      if isSeparator d then
        let blanks := c.passBlanks true
        if blanks.2.isMarker then none else prepend blanks.1 (doubleFrom fuel blanks.2)
      else prepend [d] (doubleFrom fuel (c.skip 1))

/-- A scalar between double quotes, of which the first stands here. -/
def doubleQuoted (c : Cursor) : Option (Text × Cursor) :=
  doubleFrom c.rest.length (c.skip 1)

end Cursor
end Handout
