/-
# Families of errors

An error belongs to a family, by what went wrong and not by where. A command
line reports the errors of some families and lets the others escape.

Key definition: `ErrorFamily`.
-/

namespace Handout

/-- The families of errors. -/
inductive ErrorFamily where
  /-- A value is not accepted. -/
  | value
  /-- A run broke off. -/
  | run
  /-- A file operation failed. -/
  | file
  /-- A text is no document. -/
  | document
  /-- A value is of a type that does not fit. -/
  | type
  /-- Anything else. -/
  | other
deriving Repr, DecidableEq

end Handout
