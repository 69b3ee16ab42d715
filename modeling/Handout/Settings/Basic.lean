/-
# Settings

The settings are a filter of extensions, a backup folder and whether special
solutions are preferred. They are kept as a document with one key for each.

Reading a document takes each of the three on its own: what is missing or
nothing keeps its default. A filter may be a text, or a list, the keys of a map or
the items of another value, the texts of which are joined. Every other key is ignored.

Key definitions: `Settings`, `SettingsError`, `Settings.ofValue`,
`Settings.toValue`.
-/
import Handout.Files.Fault
import Handout.Settings.Extension
import Handout.Settings.Yaml
import Handout.Text.Utf8

namespace Handout

/-- The extensions that are processed unless others are set. -/
def defaultExtensions : List Text :=
  [".cs".toList, ".java".toList, ".js".toList, ".ts".toList, ".c".toList, ".cpp".toList,
   ".h".toList, ".hpp".toList]

/-- What a user has set. -/
structure Settings where
  extensions : List Text
  backupFolder : Option Text
  preferSpecial : Bool
deriving Repr, DecidableEq

/-- Why there are no settings. -/
inductive SettingsError where
  /-- A file operation failed. -/
  | file (error : FileError)
  /-- The file is no text. -/
  | encoding (defect : Utf8.Defect)
  /-- The text is not loaded. -/
  | unreadable (error : LoadError)
  /-- The document is no map. -/
  | notMap (path : Text)
  /-- The filter has a bad entry. -/
  | extension (error : BadExtension)
  /-- The filter is neither a text nor has items. -/
  | noFilter (typeName : Text)
deriving Repr, DecidableEq

/-- The wording of a failure. -/
def SettingsError.message : SettingsError → Text
  | file e => e.message
  | encoding d => d.message
  | unreadable e => e.message
  | notMap path => "settings file at ".toList ++ path ++ " is not a YAML mapping".toList
  | extension e => e.message
  | noFilter typeName => ['\''] ++ typeName ++ "' object is not iterable".toList

/-- The family of a failure. -/
def SettingsError.family : SettingsError → ErrorFamily
  | file e => e.family
  | encoding _ | notMap _ | extension _ => .value
  | unreadable e => e.family
  | noFilter _ => .type

namespace Settings

/-- The settings of a user who has set nothing. -/
def default : Settings :=
  ⟨defaultExtensions, none, false⟩

/-- The key of the filter. -/
def extensionsKey : Text := "extensions".toList

/-- The key of the backup folder. -/
def backupKey : Text := "backup_dir".toList

/-- The key of the preference of special solutions. -/
def specialKey : Text := "prefer_special_solution".toList

/-- The filter that a value denotes, if it is a text or has items. -/
def filterOf? : Value → Option Text
  | .text t => some t
  | .list items => some (filterText (items.map Value.shown))
  | .map pairs => some (filterText (pairs.map fun p => p.1.shown))
  | .other o => o.items.map filterText
  | _ => none

/-- The extensions that the value of the filter denotes. -/
def extensionsOf : Option Value → Except SettingsError (List Text)
  | none | some .null => .ok defaultExtensions
  | some v =>
    match filterOf? v with
    | some filter => (parseExtensions filter).mapError .extension
    | none => .error (.noFilter v.typeName)

/-- The backup folder that a value denotes. -/
def backupOf : Option Value → Option Text
  | some v => if v.isTrue then some v.shown else none
  | none => none

/-- The settings that the pairs of a document denote. -/
def ofPairs (pairs : List (Value × Value)) : Except SettingsError Settings := do
  let extensions ← extensionsOf (Value.get? extensionsKey pairs)
  return ⟨extensions, backupOf (Value.get? backupKey pairs),
    (Value.get? specialKey pairs).any Value.isTrue⟩

/-- The settings that a document at a path denotes. -/
def ofValue (path : Text) (v : Value) : Except SettingsError Settings :=
  if !v.isTrue then .ok default
  else
    match v with
    | .map pairs => ofPairs pairs
    | _ => .error (.notMap path)

/-- The backup folder as a value. -/
def backupValue (s : Settings) : Value :=
  match s.backupFolder with
  | some t => .text t
  | none => .null

/-- The document of settings as a value. -/
def toValue (s : Settings) : Value :=
  .map [(.text extensionsKey, .list (s.extensions.map .text)),
    (.text backupKey, s.backupValue), (.text specialKey, .bool s.preferSpecial)]

end Settings
end Handout
