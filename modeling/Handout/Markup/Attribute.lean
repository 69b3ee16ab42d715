/-
# Attributes of a tag

An attribute is written `key="value"`: a whole word, directly followed by an
equals sign and a value in double quotes that holds neither a double quote nor
a line feed. Everything else in a region is ignored. Attributes keep the order
in which their keys first appear; of several values for one key the last
counts.

Key definitions: `Attributes`, `Attributes.put`, `Attributes.get?`,
`Attributes.read`.
-/
import Handout.Text.Occurrence
import Handout.Text.Word

namespace Handout

/-- Keys with their values, each key once, in order of first appearance. -/
abbrev Attributes := List (Text × Text)

namespace Attributes

/-- Sets the value of a key: in its place if it is there, else at the end. -/
def put (key value : Text) : Attributes → Attributes
  | [] => [(key, value)]
  | (k, v) :: r => if k = key then (k, value) :: r else (k, v) :: put key value r

/-- The value of a key. -/
def get? (key : Text) : Attributes → Option Text
  | [] => none
  | (k, v) :: r => if k = key then some v else get? key r

/-- Puts pairs one after another. -/
def ofPairs (pairs : List (Text × Text)) : Attributes :=
  pairs.foldl (fun attributes p => attributes.put p.1 p.2) []

/-- The characters before the next double quote, if no line feed comes first. -/
def value? : Text → Option Text
  | [] => none
  | c :: r => if c = '"' then some [] else if c = '\n' then none else (value? r).map (c :: ·)

/-- Reads `key="value"` at the front of a text; the key begins a word. -/
def pair : Pattern (Text × Text) := fun before t =>
  if before.any isWord || t.word.isEmpty then none
  else
    match t.afterWord with
    | '=' :: '"' :: r => (value? r).map fun value =>
        ((t.word, value), t.word.length + 2 + value.length + 1)
    | _ => none

/-- The attributes written in a region. -/
def read (region : Text) : Attributes :=
  ofPairs ((pair.occurrences region).map (·.value))

end Attributes
end Handout
