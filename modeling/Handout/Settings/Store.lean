/-
# The settings file

Loading reads the settings file, saving replaces it. A file that is missing
stands for the default settings. A file that is opened as a text has its line breaks
unified; it is read to its end before it is loaded.

Key definitions: `loadSettings`, `saveSettings`.
-/
import Handout.Settings.Basic
import Handout.Settings.Places
import Handout.Text.Line

namespace Handout

/-- The settings in the content of a file at a path. -/
def Settings.ofBytes (yaml : Yaml) (path : Text) (content : Bytes) :
    Except SettingsError Settings := do
  let source ← (Utf8.decode content).mapError .encoding
  let value ← (yaml.load (unifyBreaks source)).mapError .unreadable
  ofValue path value

/-- The settings on a disk in a file, or in the usual one if none is named. -/
def Disk.settings (disk : Disk) (yaml : Yaml) (host : Host) (file : Option Text) :
    Except SettingsError Settings :=
  let path := pathOr host.settingsPath file
  if disk.hasFile host.working path then do
    let content ← (disk.readFile host.working path).mapError .file
    Settings.ofBytes yaml path.text content
  else .ok Settings.default

/-- Loads the settings. -/
def loadSettings (yaml : Yaml) (host : Host) (file : Option Text) :
    Run SettingsError Settings := do
  Run.ofExcept id ((← Run.disk).settings yaml host file)

/-- Saves settings, makes the folders above the file, and answers its path. -/
def saveSettings (yaml : Yaml) (host : Host) (file : Option Text) (s : Settings) :
    Run SettingsError Path := do
  let path := pathOr host.settingsPath file
  Run.act .file (·.makeFolders host.working path.parent)
  Run.change .file (·.writeFile host.working path (Utf8.encode (yaml.dump s.toValue)))
  return path

end Handout
