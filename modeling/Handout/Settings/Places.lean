/-
# Places of the settings

The settings live in a folder that the environment may name, else below the
home folder. Backups live in a folder that the environment may name, else
beside the settings. An empty name counts for the first and not for the second.

Key definitions: `Host.configPath`, `Host.settingsPath`, `Host.backupPath`.
-/
import Handout.Folder.Session

namespace Handout
namespace Host

/-- The folder of the settings. -/
def configPath (host : Host) : Path :=
  match host.configFolder with
  | some t => Path.parse t
  | none => .ofLocation (host.home ++ [".config".toList, "snippet-engine".toList])

/-- The file of the settings. -/
def settingsPath (host : Host) : Path :=
  host.configPath.child "settings.yaml".toList

/-- The folder of the backups. -/
def backupPath (host : Host) : Path :=
  match host.backupFolder with
  | some (c :: r) => Path.parse (c :: r)
  | _ => host.configPath.child "backup".toList

end Host

/-- The path that a text names, or another one if there is no text or it is
empty. -/
def pathOr (default : Path) : Option Text → Path
  | some (c :: r) => Path.parse (c :: r)
  | _ => default

end Handout
