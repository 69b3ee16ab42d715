/-
# The format of the settings file

How a value is written as a document and read back is left to a library. A program
that uses it knows two operations: a text is loaded, which may fail with an error of
any family, and a value is dumped.

Key definitions: `LoadError`, `Yaml`.
-/
import Handout.ErrorFamily
import Handout.Settings.Value

namespace Handout

/-- Why a text is not loaded. -/
structure LoadError where
  family : ErrorFamily
  message : Text
deriving Repr, DecidableEq

/-- A library that reads and writes documents. -/
structure Yaml where
  /-- The value that a text denotes. -/
  load : Text → Except LoadError Value
  /-- The text of a value. -/
  dump : Value → Text

end Handout
