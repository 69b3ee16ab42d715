/-
# Failure on one file of a folder

A run over a folder stops at the first file that cannot be processed and
reports its path and, where it is known, the reason.

Key definitions: `ContentError`, `ContentError.family`, `failureMessage`.
-/
import Handout.Files.Fault
import Handout.FormatError
import Handout.Text.Utf8

namespace Handout

/-- Why a file cannot be processed. -/
inductive ContentError where
  | file (error : FileError)
  | encoding (defect : Utf8.Defect)
  | format (error : FormatError)
deriving Repr, DecidableEq

/-- The wording of a reason. -/
def ContentError.message : ContentError → Text
  | file e => e.message
  | encoding d => d.message
  | format e => e.message

/-- The family of a reason. -/
def ContentError.family : ContentError → ErrorFamily
  | file e => e.family
  | encoding _ | format _ => .value

/-- The report on the file that stopped a run. -/
def failureMessage (path : Text) : (cause : Option Text) → Text
  | none => "Error during transformation of file \"".toList ++ path ++ "\".".toList
  | some cause =>
    "Error during transformation of file \"".toList ++ path ++ "\": ".toList ++ cause

end Handout
