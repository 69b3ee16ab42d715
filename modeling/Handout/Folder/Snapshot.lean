/-
# Snapshots of a folder

Before a folder is processed it is copied, with all that it holds, to a place
of the same name below a backup folder; an older snapshot there is removed
first. A backup folder inside the source is refused.

The refusal looks at the backup folder with a leading `~` replaced, the copy
goes to the path as it is written.

Key definitions: `SnapshotError`, `snapshot`.
-/
import Handout.Folder.Session

namespace Handout

/-- Why there is no snapshot. -/
inductive SnapshotError where
  /-- The backup folder lies inside the source. -/
  | inside (root : Text) (source : Location)
  /-- A home folder is not known. -/
  | noHome
  /-- A file operation failed. -/
  | file (error : FileError)
deriving Repr, DecidableEq

/-- The wording of an unknown home folder. -/
def noHomeMessage : Text :=
  "Could not determine home directory.".toList

/-- The wording of a failure. -/
def SnapshotError.message : SnapshotError → Text
  | inside root source =>
    "The backup directory ".toList ++ root ++ " cannot be inside the source directory ".toList
      ++ source.text ++ ['.']
  | noHome => noHomeMessage
  | file e => e.message

/-- The family of a failure. -/
def SnapshotError.family : SnapshotError → ErrorFamily
  | inside _ _ => .value
  | noHome => .run
  | file e => e.family

/-- Does a backup folder lie inside a source, or is it the source? -/
def liesInside (host : Host) (root : Path) (source : Location) : Option Bool :=
  (root.expandHome host.homeOf).map fun p => source.isPrefixOf (p.resolve host.working)

/-- The place of the snapshot of a source below a backup folder. -/
def snapshotPlace (root : Path) (source : Location) : Path :=
  root.child source.name

/-- Copies a source below a backup folder and answers the place of the copy.
`shown` is the backup folder as a refusal names it. -/
def snapshot (host : Host) (source : Location) (root : Path) (shown : Text) :
    Run SnapshotError Path := do
  match liesInside host root source with
  | none => throw .noHome
  | some true => throw (.inside shown source)
  | some false =>
    let place := snapshotPlace root source
    if (← Run.disk).hasEntry host.working place then
      Run.tell (.removingSnapshot place.text)
      Run.change .file (·.removeTree host.working place)
    Run.act .file (·.makeFolders host.working place.parent)
    Run.act .file (·.copyTree host.working source place host.brokenCopy)
    Run.tell (.backedUp source.text place.text)
    return place

end Handout
