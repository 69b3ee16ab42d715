/-
# Faults of file operations

A file operation fails for one of four reasons and names the path that it was
asked for. Only a copy of a folder can fail otherwise: one that meets itself goes
deeper until a limit breaks it off, that on nested calls or that on the length of
a path.

Key definitions: `Fault`, `FileError`, `FileError.message`, `FileError.family`.
-/
import Handout.ErrorFamily
import Handout.Files.Path

namespace Handout

/-- Why a file operation fails. -/
inductive Fault where
  | notFound
  | exists
  | notFolder
  | isFolder
deriving Repr, DecidableEq

/-- A fault and the path at which it shows. -/
inductive FileError where
  /-- An operation on a path fails. -/
  | failed (fault : Fault) (path : Path)
  /-- A folder that should be removed with all it holds is a file. -/
  | removal (path : Path)
  /-- A folder is copied to a place so deep inside itself that the copy never ends, and
  the limit on nested calls breaks it off, or else that on the length of a path. -/
  | endless (nested : Bool) (report : Text)
deriving Repr, DecidableEq

/-- The number and the wording of a fault. -/
def Fault.message : Fault → Text
  | notFound => "[Errno 2] No such file or directory: ".toList
  | .exists => "[Errno 17] File exists: ".toList
  | notFolder => "[Errno 20] Not a directory: ".toList
  | isFolder => "[Errno 21] Is a directory: ".toList

/-- The wording of a failed operation. -/
def FileError.message : FileError → Text
  | failed fault path => fault.message ++ path.text.quoted
  | removal path => Fault.notFolder.message ++ "PosixPath(".toList ++ path.text.quoted ++ [')']
  | endless _ report => report

/-- The family of a failed operation. -/
def FileError.family : FileError → ErrorFamily
  | failed _ _ | removal _ => .file
  | endless nested _ => if nested then .run else .file

end Handout
