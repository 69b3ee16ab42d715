/-
# Kinds of variants

A snippet offers its code in up to three variants: what a student receives, the
solution, and a special solution that may take its place.

Key definitions: `Kind`, `Kind.name`, `Kind.all`.
-/
import Handout.Text.Basic

namespace Handout

/-- The three variants of a snippet. -/
inductive Kind where
  | student
  | solution
  | special
deriving Repr, DecidableEq

namespace Kind

/-- The name of the tag that holds a variant. -/
def name : Kind → Text
  | student => "student".toList
  | solution => "solution".toList
  | special => "specialsolution".toList

/-- The kinds in the order in which a rendering lists them. -/
def all : List Kind :=
  [student, solution, special]

end Kind
end Handout
