/-
# Writing a document

A map is written with one line for each key, and a list below its key with one line for
each item. What stands in such a line is a scalar, or an empty list or map.

A text is written plain if it reads back as the same text. It is written
between single quotes if it is empty, has the form of another value, has a
blank at an end, holds line breaks, or begins or goes on like a piece of the
layout; and between double quotes if it holds a character that is neither a
line feed nor visible ASCII, or a space next to a line break.

Lines are folded: beyond column 80 the next single space becomes a line break
with an indentation of two. Between double quotes a line is broken after a
backslash, at a space or next to an escape.

This is what the values of settings need. Any other value is written as it is shown
inside of a list, which need not be read back as that value.

Key definitions: `Style`, `Text.style`, `Text.scalar`, `Value.inlineText`,
`Value.document`.
-/
import Handout.Yaml.ScalarReader

namespace Handout

/-- How a text is written. -/
inductive Style where
  | plain
  | single
  | double
deriving Repr, DecidableEq

/-- Is the character visible ASCII, a space or a line feed? -/
def isOrdinary (c : Char) : Bool :=
  c == '\n' || (0x20 ≤ c.toNat && c.toNat ≤ 0x7E)

/-- Does a text, after the given character, hold a colon in front of a blank or
the end, or a number sign behind a blank? -/
def breaksPlain : (before : Char) → Text → Bool
  | _, [] => false
  | before, c :: r =>
    (c == ':' && beginsBlank r) || (c == '#' && isSeparator before) || breaksPlain c r

/-- Does a text look like a piece of the layout if it is written plain? -/
def looksLikeLayout : Text → Bool
  | [] => false
  | c :: r =>
    ['-', '-', '-'].isPrefixOf (c :: r) || ['.', '.', '.'].isPrefixOf (c :: r)
      || isDivider c || "#&*!|>'\"%@`".toList.contains c
      || ((c == '?' || c == ':' || c == '-') && beginsBlank r)
      || breaksPlain c r

/-- Does a space stand next to a line feed? -/
def hasSpaceAtBreak : Text → Bool
  | ' ' :: '\n' :: _ => true
  | '\n' :: ' ' :: _ => true
  | _ :: r => hasSpaceAtBreak r
  | [] => false

/-- Is there a space at an end of a text? -/
def hasSpaceAtEnd (t : Text) : Bool :=
  t.head? == some ' ' || t.getLast? == some ' '

/-- How a text is written. -/
def Text.style (t : Text) : Style :=
  if !t.all isOrdinary || hasSpaceAtBreak t then .double
  else if !Plain.isText t || t.contains '\n' || hasSpaceAtEnd t || looksLikeLayout t then .single
  else .plain

/-- The column beyond which a line is folded. -/
def foldColumn : Nat := 80

/-- A plain text, or one between single quotes, from a column on, after the
given character. A run of line feeds is written with one more. -/
def foldedFrom (quoted : Bool) : (column : Nat) → (before : Option Char) → Text → Text
  | _, _, [] => []
  | column, before, c :: r =>
    if c = '\n' then
      (if before = some '\n' then ['\n'] else ['\n', '\n'])
        ++ (if r.head? = some '\n' then [] else [' ', ' '])
        ++ foldedFrom quoted 2 (some c) r
    else if c = ' ' ∧ before.any (· ≠ ' ') ∧ r.head?.any (· ≠ ' ') ∧ foldColumn < column then
      ['\n', ' ', ' '] ++ foldedFrom quoted 2 (some c) r
    else if quoted ∧ c = '\'' then ['\'', '\''] ++ foldedFrom quoted (column + 2) (some c) r
    else [c] ++ foldedFrom quoted (column + 1) (some c) r

/-- The letters after a backslash, with the characters that they stand for. -/
def escapeLetters : List (Char × Char) :=
  [('\x00', '0'), ('\x07', 'a'), ('\x08', 'b'), ('\t', 't'), ('\n', 'n'), ('\x0b', 'v'),
   ('\x0c', 'f'), ('\r', 'r'), ('\x1b', 'e'), ('"', '"'), ('\\', '\\'), ('\u0085', 'N'),
   ('\u00a0', '_'), ('\u2028', 'L'), ('\u2029', 'P')]

/-- The escape of a character between double quotes, if it needs one. -/
def escape? (c : Char) : Option Text :=
  let n := c.toNat
  if 0x20 ≤ n ∧ n ≤ 0x7E ∧ c ≠ '"' ∧ c ≠ '\\' then none
  else
    match escapeLetters.lookup c with
    | some letter => some ['\\', letter]
    | none =>
      if n ≤ 0xFF then some (['\\', 'x'] ++ (Text.hex 2 n).map Char.toUpper)
      else if n ≤ 0xFFFF then some (['\\', 'u'] ++ (Text.hex 4 n).map Char.toUpper)
      else some (['\\', 'U'] ++ (Text.hex 8 n).map Char.toUpper)

/-- A break of a line between double quotes in front of the given text. A space
at the start of a line is kept by a backslash. -/
def doubleBreak (next : Text) : Text :=
  ['\\', '\n', ' ', ' '] ++ if next.head? = some ' ' then ['\\'] else []

/-- A text between double quotes from a column on. A line is broken neither
before the second character nor before the last; `escaped` tells whether an
escape stands in front. -/
def doubleFrom (first escaped : Bool) : (column : Nat) → Text → Text
  | _, [] => []
  | column, c :: r =>
    let inner := !first && !r.isEmpty
    match escape? c with
    | some e =>
      if inner && foldColumn + 1 < column + e.length then
        let line := doubleBreak r
        e ++ line ++ doubleFrom false true (line.length - 2) r
      else e ++ doubleFrom false true (column + e.length) r
    | none =>
      if inner && (c == ' ' || escaped) && foldColumn < column then
        let line := doubleBreak (c :: r)
        line ++ [c] ++ doubleFrom false false (line.length - 1) r
      else [c] ++ doubleFrom false false (column + 1) r

/-- A text as a scalar that begins in a column. -/
def Text.scalar (column : Nat) (t : Text) : Text :=
  match t.style with
  | .plain => foldedFrom false column none t
  | .single => ['\''] ++ foldedFrom true (column + 1) none t ++ ['\'']
  | .double => ['"'] ++ doubleFrom true false (column + 1) t ++ ['"']

namespace Value

/-- A value in one line from a column on. -/
def inlineText (column : Nat) : Value → Text
  | null => "null".toList
  | bool b => if b then "true".toList else "false".toList
  | text t => Text.scalar column t
  | v => v.inside

/-- An item of a list, in a line of its own. -/
def itemLine (item : Value) : Text :=
  ['-', ' '] ++ item.inlineText 2 ++ ['\n']

/-- A key of a map with its value. -/
def pairLines (key value : Value) : Text :=
  let k := key.inlineText 0
  match value with
  | list (item :: items) => k ++ [':', '\n'] ++ (item :: items).flatMap itemLine
  | v => k ++ [':', ' '] ++ v.inlineText (k.length + 2) ++ ['\n']

/-- The document of a value. -/
def document : Value → Text
  | map (pair :: pairs) => (pair :: pairs).flatMap fun p => pairLines p.1 p.2
  | v => v.inlineText 0 ++ ['\n']

end Value
end Handout
