/-
# Commands

A command line asks for one of six commands, for a manual, or makes no sense.
The options of the program stand in front of the command, those of a command
behind it; what is left over anywhere is refused by the program.

Key definitions: `Command`, `Invocation`, `CommandLine`, `CommandLine.read`.
-/
import Handout.Command.Grammar
import Handout.Command.Manual
import Handout.Render.Mode

namespace Handout

/-- A rendering of the files of a folder. -/
structure TransformCommand where
  folder : Text
  mode : Mode
  task : Option Text
  special : Bool
  target : Option Text
  onlyTransformed : Bool
  extensions : Option Text
  backupFolder : Option Text
  dryRun : Bool
deriving Repr, DecidableEq

/-- A rendering of one file. -/
structure RenderCommand where
  file : Text
  mode : Mode
  task : Option Text
  special : Bool
  output : Option Text
deriving Repr, DecidableEq

/-- A summary of one file. -/
structure InspectCommand where
  file : Text
  task : Option Text
  tree : Bool
deriving Repr, DecidableEq

/-- The commands. -/
inductive Command where
  | transform (c : TransformCommand)
  | render (c : RenderCommand)
  | inspect (c : InspectCommand)
  | showSettings
  | setExtensions (filter : Text)
  | setBackupFolder (folder : Text)
deriving Repr, DecidableEq

/-- A command and the options of the program. -/
structure Invocation where
  settings : Option Text
  verbose : Bool
  command : Command
deriving Repr, DecidableEq

/-- What a command line asks for. -/
inductive CommandLine where
  /-- A command. -/
  | invoke (i : Invocation)
  /-- A manual. -/
  | manual (m : Manual)
  /-- Nothing that makes sense; the manual says how the command is used. -/
  | refuse (m : Manual) (misuse : Misuse)
deriving Repr, DecidableEq

namespace Grammar

/-- An option that shows the manual. -/
def helpOption : OptionRule :=
  ⟨some 'h', "--help".toList, .help, false⟩

/-- A flag. -/
def flag (name : String) : OptionRule :=
  ⟨none, name.toList, .flag, false⟩

/-- An option with a value. -/
def value (name : String) : OptionRule :=
  ⟨none, name.toList, .value, false⟩

/-- The option for the mode, which is needed. -/
def modeOption : OptionRule :=
  ⟨none, "--mode".toList, .choice (Mode.all.map Mode.name), true⟩

/-- The arguments of the program. -/
def program : Grammar where
  operand := .command "command".toList
    ["transform".toList, "render".toList, "inspect".toList, "settings".toList]
  options := [helpOption, value "--settings", ⟨some 'v', "--verbose".toList, .flag, false⟩]

/-- The arguments of the command for a folder. -/
def transform : Grammar where
  operand := .value "folder".toList
  options := [helpOption, modeOption, value "--task", flag "--special", value "--target",
    flag "--only-transformed", value "--extensions", value "--backup-dir", flag "--dry-run"]

/-- The arguments of the command for a file. -/
def render : Grammar where
  operand := .value "file".toList
  options := [helpOption, modeOption, value "--task", flag "--special", value "--output"]

/-- The arguments of the command for a summary. -/
def inspect : Grammar where
  operand := .value "file".toList
  options := [helpOption, value "--task", flag "--tree"]

/-- The arguments of the command for settings. -/
def settings : Grammar where
  operand := .command "subcommand".toList
    ["show".toList, "set-extensions".toList, "set-backup-dir".toList]
  options := [helpOption]

/-- The arguments of the command that shows settings. -/
def showSettings : Grammar where
  operand := .none
  options := [helpOption]

/-- The arguments of the command that sets the filter. -/
def setExtensions : Grammar where
  operand := .value "extensions".toList
  options := [helpOption]

/-- The arguments of the command that sets the backup folder. -/
def setBackup : Grammar where
  operand := .value "directory".toList
  options := [helpOption]

end Grammar

/-- The command for a folder that its arguments ask for. -/
def TransformCommand.ofMatches? (m : Matches) : Option TransformCommand := do
  let folder ← m.operand
  let mode ← (m.value? "--mode".toList).bind Mode.ofName?
  return {
    folder
    mode
    task := m.value? "--task".toList
    special := m.has "--special".toList
    target := m.value? "--target".toList
    onlyTransformed := m.has "--only-transformed".toList
    extensions := m.value? "--extensions".toList
    backupFolder := m.value? "--backup-dir".toList
    dryRun := m.has "--dry-run".toList }

/-- The command for a file that its arguments ask for. -/
def RenderCommand.ofMatches? (m : Matches) : Option RenderCommand := do
  let file ← m.operand
  let mode ← (m.value? "--mode".toList).bind Mode.ofName?
  return {
    file
    mode
    task := m.value? "--task".toList
    special := m.has "--special".toList
    output := m.value? "--output".toList }

/-- The command for a summary that its arguments ask for. -/
def InspectCommand.ofMatches? (m : Matches) : Option InspectCommand := do
  let file ← m.operand
  return {
    file
    task := m.value? "--task".toList
    tree := m.has "--tree".toList }

namespace CommandLine

/-- The arguments of one command, or the end of the reading: its manual is wanted
or they make no sense. -/
def level (manual : Manual) (g : Grammar) (arguments : List Text) : Except CommandLine Matches :=
  match g.read arguments with
  | .ok m => .ok m
  | .error .help => .error (.manual manual)
  | .error (.misuse misuse) => .error (.refuse manual misuse)

/-- Refuses what is left over. -/
def finish (extras : List Text) (line : CommandLine) : CommandLine :=
  if extras.isEmpty then line else .refuse .program (.unrecognized extras)

/-- Reads the arguments of a command, the name of which is known. -/
def readCommand (manual : Manual) (g : Grammar) (outer : Matches) (extras arguments : List Text)
    (command? : Matches → Option Command) : CommandLine :=
  match level manual g arguments with
  | .error line => line
  | .ok m =>
    match command? m with
    | some c => finish (extras ++ m.extras)
        (.invoke ⟨outer.value? "--settings".toList, outer.has "--verbose".toList, c⟩)
    | none => .refuse manual (.missing (g.missing .empty))

/-- Reads the arguments of the command for settings. -/
def readSettings (outer : Matches) : CommandLine :=
  match level .settings .settings outer.rest with
  | .error line => line
  | .ok m =>
    let extras := outer.extras ++ m.extras
    if m.operand = some "show".toList then
      readCommand .showSettings .showSettings outer extras m.rest fun _ => some .showSettings
    else if m.operand = some "set-extensions".toList then
      readCommand .setExtensions .setExtensions outer extras m.rest fun n =>
        n.operand.map .setExtensions
    else if m.operand = some "set-backup-dir".toList then
      readCommand .setBackup .setBackup outer extras m.rest fun n =>
        n.operand.map .setBackupFolder
    else finish extras (.manual .settings)

/-- Reads a command line. -/
def read (arguments : List Text) : CommandLine :=
  match level .program .program arguments with
  | .error line => line
  | .ok m =>
    if m.operand = some "transform".toList then
      readCommand .transform .transform m m.extras m.rest fun n =>
        (TransformCommand.ofMatches? n).map .transform
    else if m.operand = some "render".toList then
      readCommand .render .render m m.extras m.rest fun n =>
        (RenderCommand.ofMatches? n).map .render
    else if m.operand = some "inspect".toList then
      readCommand .inspect .inspect m m.extras m.rest fun n =>
        (InspectCommand.ofMatches? n).map .inspect
    else if m.operand = some "settings".toList then readSettings m
    else finish m.extras (.manual .program)

end CommandLine
end Handout
