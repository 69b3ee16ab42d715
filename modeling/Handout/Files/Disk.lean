/-
# Operations on a disk

The operations that the rest is built from. Each takes a path as it was given,
follows it name by name from the root or the working folder, where all but the
last name must lead through folders, and either answers, possibly with a new
disk, or fails with the path that it was asked for. There are no links. A file is
written as a whole: what fails is noticed before anything is written, so no
operation stops half-way but two, the making of several folders and the copy of
a folder that meets itself.

Key definitions: `Disk`, `Disk.locate`, `Disk.entry?`, `Disk.readFile`,
`Disk.writeFile`, `Disk.removeFile`, `Disk.makeFolder`, `Disk.makeFolders`,
`Disk.removeTree`, `Disk.copyTree`.
-/
import Handout.Files.Entry
import Handout.Files.Fault

namespace Handout

/-- The entry at the root. -/
abbrev Disk := Entry

namespace Disk

/-- Follows names from a location through folders. -/
def walk (disk : Disk) : Location → List Text → Except Fault Location
  | l, [] => .ok l
  | l, n :: r =>
    match disk.find? l with
    | none => .error .notFound
    | some (.file _) => .error .notFolder
    | some (.folder _) => walk disk (if n = upName then l.dropLast else l ++ [n]) r

/-- The location of a path, at which there need not be an entry. A path leads nowhere if
there is nothing where it starts, as at a working folder that is gone. -/
def locate (disk : Disk) (working : Location) (p : Path) : Except Fault Location :=
  if (disk.find? (p.base working)).isSome then walk disk (p.base working) p.names
  else .error .notFound

/-- The entry that a path leads to. -/
def entry? (disk : Disk) (working : Location) (p : Path) : Option Entry :=
  match disk.locate working p with
  | .ok l => disk.find? l
  | .error _ => none

/-- Is there an entry? -/
def hasEntry (disk : Disk) (working : Location) (p : Path) : Bool :=
  (disk.entry? working p).isSome

/-- Is there a file? -/
def hasFile (disk : Disk) (working : Location) (p : Path) : Bool :=
  (disk.entry? working p).any Entry.isFile

/-- Is there a folder? -/
def hasFolder (disk : Disk) (working : Location) (p : Path) : Bool :=
  (disk.entry? working p).any Entry.isFolder

/-- The content of a file. -/
def readFile (disk : Disk) (working : Location) (p : Path) : Except FileError Bytes :=
  match disk.locate working p with
  | .error fault => .error (.failed fault p)
  | .ok l =>
    match disk.find? l with
    | none => .error (.failed .notFound p)
    | some (.folder _) => .error (.failed .isFolder p)
    | some (.file content) => .ok content

/-- The disk after a file is written, in the place of an older one. -/
def writeFile (disk : Disk) (working : Location) (p : Path) (content : Bytes) :
    Except FileError Disk :=
  match disk.locate working p with
  | .error fault => .error (.failed fault p)
  | .ok l =>
    match disk.find? l with
    | some (.folder _) => .error (.failed .isFolder p)
    | _ => .ok (Entry.put (.file content) disk l)

/-- The disk after a file is removed. -/
def removeFile (disk : Disk) (working : Location) (p : Path) : Except FileError Disk :=
  match disk.locate working p with
  | .error fault => .error (.failed fault p)
  | .ok l =>
    match disk.find? l with
    | none => .error (.failed .notFound p)
    | some (.folder _) => .error (.failed .isFolder p)
    | some (.file _) => .ok (disk.erase l)

/-- The disk after an empty folder is made where there is nothing yet. -/
def makeFolder (disk : Disk) (working : Location) (p : Path) : Except Fault Disk :=
  match disk.locate working p with
  | .error fault => .error fault
  | .ok l =>
    match disk.find? l with
    | some _ => .error .exists
    | none => .ok (Entry.put (.folder []) disk l)

/-- Makes a folder whose parent is there; a folder that is there already is
fine. -/
def ensureFolder (disk : Disk) (working : Location) (p : Path) : Except FileError Unit × Disk :=
  match disk.makeFolder working p with
  | .ok made => (.ok (), made)
  | .error fault =>
    if disk.hasFolder working p then (.ok (), disk) else (.error (.failed fault p), disk)

/-- Makes the folder with the given names in reverse, and before it those above
it that are missing. -/
def makeFoldersUp (working : Location) (start : PathStart) :
    List Text → Disk → Except FileError Unit × Disk
  | [], disk => ensureFolder disk working ⟨start, []⟩
  | n :: r, disk =>
    let p : Path := ⟨start, (n :: r).reverse⟩
    match disk.makeFolder working p with
    | .error .notFound =>
      match makeFoldersUp working start r disk with
      | (.ok (), made) => ensureFolder made working p
      | (.error e, made) => (.error e, made)
    | _ => ensureFolder disk working p

/-- Makes a folder and those above it that are missing. What was made stays
made if a later one fails. -/
def makeFolders (disk : Disk) (working : Location) (p : Path) : Except FileError Unit × Disk :=
  makeFoldersUp working p.start p.names.reverse disk

/-- The disk after a folder is removed with all that it holds. -/
def removeTree (disk : Disk) (working : Location) (p : Path) : Except FileError Disk :=
  match disk.locate working p with
  | .error fault => .error (.failed fault p)
  | .ok l =>
    match disk.find? l with
    | none => .error (.failed .notFound p)
    | some (.file _) => .error (.removal p)
    | some (.folder _) => .ok (disk.erase l)

/-- What is left of a copy that meets itself, when a limit breaks it off. -/
structure BrokenCopy where
  /-- Was it the limit on nested calls? -/
  nested : Bool
  report : Text
  /-- What was copied until then. -/
  entries : List (Text × Entry)

/-- Is a location inside a folder, and not just below it? A copy that goes there meets
itself: the folder on the way to it is copied too, with the copy in it. -/
def meetsItself (source target : Location) : Bool :=
  source.isPrefixOf target && source.length + 1 < target.length

/-- Copies a folder with all that it holds to a path where there is nothing. What stands
in the folder is listed before the copy is begun. A copy that meets itself never ends;
`broken` tells what is left of it. -/
def copyTree (disk : Disk) (working : Location) (source : Location) (target : Path)
    (broken : Disk → Location → Location → BrokenCopy) : Except FileError Unit × Disk :=
  match disk.locate working (.ofLocation source) with
  | .error fault => (.error (.failed fault (.ofLocation source)), disk)
  | .ok place =>
    match disk.find? place with
    | none => (.error (.failed .notFound (.ofLocation source)), disk)
    | some (.file _) => (.error (.failed .notFolder (.ofLocation source)), disk)
    | some (.folder entries) =>
      match disk.locate working target with
      | .error fault => (.error (.failed fault target), disk)
      | .ok l =>
        match disk.find? l with
        | some _ => (.error (.failed .exists target), disk)
        | none =>
          if meetsItself place l then
            let left := broken disk place l
            (.error (.endless left.nested left.report), Entry.put (.folder left.entries) disk l)
          else (.ok (), Entry.put (.folder entries) disk l)

end Disk
end Handout
