/-
# Running commands

A command acts on a session and answers what it prints. A failure of one of four
families is printed too and makes the exit code one; any other escapes. Misuse makes
the exit code two. The log is printed to the other channel, if it is wanted.

Key definitions: `CommandError`, `caughtFamilies`, `Invocation.run`, `Outcome`,
`runCommandLine`.
-/
import Handout.Command.Basic
import Handout.Command.Summary
import Handout.Folder.Transform
import Handout.Settings.Store
import Handout.Task.Cutoff

namespace Handout

/-- The families of errors that are reported to the user. -/
def caughtFamilies : List ErrorFamily :=
  [.value, .run, .file, .document]

/-- Why a command fails. -/
inductive CommandError where
  | settings (e : SettingsError)
  | extension (e : BadExtension)
  | content (e : ContentError)
  | folder (e : RunError)
deriving Repr, DecidableEq

namespace CommandError

/-- The wording of a failure. -/
def message : CommandError → Text
  | settings e => e.message
  | extension e => e.message
  | content e => e.message
  | folder e => e.message

/-- The family of a failure. -/
def family : CommandError → ErrorFamily
  | settings e => e.family
  | extension _ => .value
  | content e => e.family
  | folder e => e.family

/-- Is the failure reported to the user? -/
def isContained (e : CommandError) : Bool :=
  caughtFamilies.contains e.family

end CommandError

/-- The task that an option names. -/
def taskOption (t : Option Text) : Run CommandError (Option TaskNumber) :=
  Run.ofExcept (fun e => .content (.format e)) (readTask t)

/-- A text with content, or else another one. -/
def orElseText (t other : Option Text) : Option Text :=
  if t.any (!·.isEmpty) then t else other

/-- The document in a file. -/
def readDocument (host : Host) (file : Text) : Run CommandError Document := do
  let content ← Run.ofExcept (fun e => .content (.file e))
    ((← Run.disk).readFile host.working (Path.parse file))
  let source ← Run.ofExcept (fun d => .content (.encoding d)) (Utf8.decode content)
  Run.ofExcept (fun e => .content (.format e)) (Document.parse source)

/-- The extensions of a command, or those of the settings. -/
def chosenExtensions (given : Option Text) (s : Settings) : Run CommandError (List Text) :=
  match given with
  | some (c :: r) => Run.ofExcept .extension (parseExtensions (c :: r))
  | _ => pure s.extensions

/-- Renders the files of a folder. -/
def TransformCommand.run (yaml : Yaml) (host : Host) (file : Option Text) (verbose : Bool)
    (c : TransformCommand) : Run CommandError Text := do
  let s ← (loadSettings yaml host file).adapt CommandError.settings
  let extensions ← chosenExtensions c.extensions s
  let root := pathOr host.backupPath (orElseText c.backupFolder s.backupFolder)
  let task ← taskOption c.task
  let report ← (transformFolder host root {
    folder := c.folder
    target := c.target
    extensions
    options := ⟨c.mode, task, c.special || s.preferSpecial⟩
    onlyTransformed := c.onlyTransformed
    dryRun := c.dryRun }).adapt CommandError.folder
  let details := if verbose then report.transformed.map fun p => "  ~ ".toList ++ p else []
  return (report.summary :: details).flatMap (· ++ ['\n'])

/-- Renders one file. -/
def RenderCommand.run (yaml : Yaml) (host : Host) (file : Option Text) (c : RenderCommand) :
    Run CommandError Text := do
  let s ← (loadSettings yaml host file).adapt CommandError.settings
  let d ← readDocument host c.file
  let task ← taskOption c.task
  let output ← Run.ofExcept (fun e => .content (.format e))
    (d.render ⟨c.mode, task, c.special || s.preferSpecial⟩)
  match c.output with
  | some (a :: r) =>
    (writeOutput host (Path.parse (a :: r)) (Utf8.encode output)).adapt CommandError.content
    return "  Wrote ".toList ++ (a :: r) ++ ['\n']
  | _ => return output

/-- Summarizes one file. -/
def InspectCommand.run (host : Host) (c : InspectCommand) : Run CommandError Text := do
  let d ← readDocument host c.file
  let task ← taskOption c.task
  return summary c.file d task c.tree

/-- Shows the settings. -/
def showSettings (yaml : Yaml) (host : Host) (file : Option Text) : Run CommandError Text := do
  let s ← (loadSettings yaml host file).adapt CommandError.settings
  let path := (orElseText file none).getD host.settingsPath.text
  let backup := (orElseText s.backupFolder none).getD host.backupPath.text
  let special := if s.preferSpecial then "yes".toList else "no".toList
  return ["  Settings file:    ".toList ++ path,
      "  Extensions:       ".toList ++ filterText s.extensions,
      "  Backup dir:       ".toList ++ backup,
      "  Special solution: ".toList ++ special].flatMap (· ++ ['\n'])

/-- Changes the settings, saves them, and tells what was set. -/
def changeSettings (yaml : Yaml) (host : Host) (file : Option Text)
    (change : Settings → Except BadExtension Settings) (told : Settings → Text) :
    Run CommandError Text := do
  let s ← (loadSettings yaml host file).adapt CommandError.settings
  let changed ← Run.ofExcept .extension (change s)
  let path ← (saveSettings yaml host file changed).adapt CommandError.settings
  return told changed ++ ['\n'] ++ "  Saved ".toList ++ path.text ++ ['\n']

/-- Runs a command and answers what it prints. -/
def Invocation.run (yaml : Yaml) (host : Host) (i : Invocation) : Run CommandError Text :=
  match i.command with
  | .transform c => c.run yaml host i.settings i.verbose
  | .render c => c.run yaml host i.settings
  | .inspect c => c.run host
  | .showSettings => showSettings yaml host i.settings
  | .setExtensions filter =>
    changeSettings yaml host i.settings
      (fun s => (parseExtensions filter).map fun e => { s with extensions := e })
      (fun s => "  Extensions set to: ".toList ++ filterText s.extensions)
  | .setBackupFolder folder =>
    changeSettings yaml host i.settings
      (fun s => .ok { s with backupFolder := some folder })
      (fun _ => "  Backup dir set to: ".toList ++ folder)

/-- How a command line ends. -/
inductive Ending where
  | exit (code : Nat)
  | escaped (error : CommandError)
deriving Repr, DecidableEq

/-- How a command line ends, and what it printed to either channel. -/
structure Outcome where
  ending : Ending
  out : Text
  err : Text
deriving Repr, DecidableEq

/-- The log as it is printed. -/
def logText (verbose : Bool) (log : List Event) : Text :=
  if verbose then log.flatMap fun e => e.line ++ ['\n'] else []

/-- The outcome of a command. -/
def outcomeOf (err : Text) : Except CommandError Text → Outcome
  | .ok out => ⟨.exit 0, out, err⟩
  | .error e =>
    if e.isContained then ⟨.exit 1, "ERROR: ".toList ++ e.message ++ ['\n'], err⟩
    else ⟨.escaped e, [], err⟩

/-- Runs a command line on a disk, and leaves a disk. -/
def runCommandLine (yaml : Yaml) (host : Host) (disk : Disk) (arguments : List Text) :
    Outcome × Disk :=
  match CommandLine.read arguments with
  | .manual m => (⟨.exit 0, m.text, []⟩, disk)
  | .refuse m misuse => (⟨.exit 2, [], m.refusal misuse⟩, disk)
  | .invoke i =>
    let (result, session) := (i.run yaml host).run.run ⟨disk, none, []⟩
    (outcomeOf (logText i.verbose session.log) result, session.disk)

end Handout
