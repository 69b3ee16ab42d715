/-
# Occurrences of a pattern

A pattern reads a value at the front of a text and says how many characters it
took; it may look at the character before. The occurrences of a pattern are
found from left to right: at each index that no earlier occurrence covers the
pattern is tried, and where it reads, the search goes on after what it took.

Key definitions: `Pattern`, `Occurrence`, `Pattern.occurrences`.
-/
import Handout.Text.Basic

namespace Handout

/-- Reads a value at the front of a text, given the character before the text
if there is one; answers the value and the number of characters taken. -/
abbrev Pattern (α : Type) := Option Char → Text → Option (α × Nat)

/-- A value read at `start` from `length` characters. -/
structure Occurrence (α : Type) where
  start : Nat
  length : Nat
  value : α
deriving Repr, DecidableEq

namespace Pattern

variable {α : Type}

/-- The occurrences in the text from index `start` on, the next `covered`
characters of which belong to an occurrence found before. -/
def occurrencesFrom (p : Pattern α) : (start covered : Nat) → Option Char → Text →
    List (Occurrence α)
  | _, _, _, [] => []
  | start, covered + 1, _, c :: r => occurrencesFrom p (start + 1) covered (some c) r
  | start, 0, before, c :: r =>
    match p before (c :: r) with
    | some (value, length) =>
      ⟨start, length, value⟩ :: occurrencesFrom p (start + 1) (length - 1) (some c) r
    | none => occurrencesFrom p (start + 1) 0 (some c) r

/-- The occurrences of a pattern in a text, from left to right, no two of which
overlap. -/
def occurrences (p : Pattern α) (t : Text) : List (Occurrence α) :=
  occurrencesFrom p 0 0 none t

end Pattern
end Handout
