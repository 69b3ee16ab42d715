/-
# Filters of file extensions

A filter is written as extensions with spaces between them. Every extension
begins with a dot.

Key definitions: `BadExtension`, `parseExtensions`, `filterText`.
-/
import Handout.Text.Basic

namespace Handout

/-- An entry of a filter that does not begin with a dot. -/
structure BadExtension where
  entry : Text
deriving Repr, DecidableEq

/-- The wording of the refusal of an entry. -/
def BadExtension.message (e : BadExtension) : Text :=
  "Extension '".toList ++ e.entry ++ "' must start with '.'".toList

/-- The entries of a filter: what stands between spaces, without the empty
pieces. -/
def filterEntries (filter : Text) : List Text :=
  (filter.splitAt ' ').filter (!·.isEmpty)

/-- The extensions of a filter, or its first entry that is none. -/
def parseExtensions (filter : Text) : Except BadExtension (List Text) :=
  match (filterEntries filter).find? fun e => e.head? ≠ some '.' with
  | some e => .error ⟨e⟩
  | none => .ok (filterEntries filter)

/-- The filter with the given extensions. -/
def filterText (extensions : List Text) : Text :=
  Text.joinWith [' '] extensions

end Handout
