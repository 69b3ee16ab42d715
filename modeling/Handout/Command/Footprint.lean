/-
# What a command touches

A command reads and writes at places that are known before it runs: its settings
file and, once the settings are known, the files and folders that it names. Only
these have to be present on the disk that it runs on.

Key definitions: `Invocation.settingsFile`, `Invocation.footprint`.
-/
import Handout.Command.Basic
import Handout.Folder.Snapshot
import Handout.Settings.Store

namespace Handout

/-- The settings file of a command. -/
def Invocation.settingsFile (host : Host) (i : Invocation) : Path :=
  pathOr host.settingsPath i.settings

/-- The path that a text names, with a leading `~` replaced where that is
known. -/
def namedPath (host : Host) (t : Text) : Path :=
  ((Path.parse t).expandHome host.homeOf).getD (Path.parse t)

/-- The places that the command for a folder touches. -/
def TransformCommand.footprint (host : Host) (s : Settings) (c : TransformCommand) : List Path :=
  let folder := namedPath host c.folder
  let given := if c.backupFolder.any (!·.isEmpty) then c.backupFolder else s.backupFolder
  let root := pathOr host.backupPath given
  [folder, snapshotPlace root (folder.resolve host.working)]
    ++ (c.target.map (namedPath host)).toList

/-- The places that a command touches beside its settings file. -/
def Invocation.footprint (host : Host) (s : Settings) (i : Invocation) : List Path :=
  match i.command with
  | .transform c => c.footprint host s
  | .render c => Path.parse c.file :: (c.output.map Path.parse).toList
  | .inspect c => [Path.parse c.file]
  | _ => []

end Handout
