/-
# What differs between two disks

A disk becomes another one by removing what the other does not have, and then
making the folders and writing the files that are missing or different.

Key definitions: `Change`, `Disk.changes`.
-/
import Handout.Files.Disk

namespace Handout

/-- One step from a disk to another. -/
inductive Change where
  | removeFile (place : Location)
  | removeFolder (place : Location)
  | makeFolder (place : Location)
  | writeFile (place : Location) (content : Bytes)
deriving Repr, DecidableEq

/-- The step that removes an entry which is no longer there in its kind. -/
def removal? (new : Disk) (place : Location) (old : Entry) : Option Change :=
  match old, new.find? place with
  | .file _, some (.file _) => none
  | .folder _, some (.folder _) => none
  | .file _, _ => some (.removeFile place)
  | .folder _, _ => some (.removeFolder place)

/-- The step that makes an entry which was not there, or was different. -/
def creation? (old : Disk) (place : Location) (new : Entry) : Option Change :=
  match new, old.find? place with
  | .folder _, some (.folder _) => none
  | .folder _, _ => some (.makeFolder place)
  | .file content, some (.file before) =>
    if content = before then none else some (.writeFile place content)
  | .file content, _ => some (.writeFile place content)

/-- The steps from one disk to another; what a folder holds is removed before the
folder and made after it. -/
def Disk.changes (old new : Disk) : List Change :=
  (old.contents.reverse.filterMap fun p => removal? new p.1 p.2)
    ++ new.contents.filterMap fun p => creation? old p.1 p.2

end Handout
