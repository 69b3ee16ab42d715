/-
# The program

The outer layer: it brings what a command touches onto a disk in memory, runs the
command line on it, and carries out what has changed.
-/
import Handout.Command.Footprint
import Handout.Command.Run
import Handout.Files.Change
import Handout.Yaml.Simple

namespace Handout

/-- A location as the operating system takes it. -/
def Location.string (l : Location) : String :=
  String.ofList l.text

/-- The entry at a place, with all that it holds. -/
partial def fetchEntry (place : Location) : IO (Option Entry) := do
  let here := (← IO.currentDir) / place.string
  if ← here.isDir then
    let mut entries := []
    for e in ← here.readDir do
      let name := e.fileName.toList
      if let some entry ← fetchEntry (place ++ [name]) then
        entries := (name, entry) :: entries
    return some (.folder entries)
  else if ← here.pathExists then
    return some (.file (← IO.FS.readBinFile here).toList)
  else return none

/-- Brings the folders on the way to a place onto a disk, and then the entry at the
place. -/
def bring (disk : Disk) (done : Location) : List Text → IO Disk
  | [] => do
    match ← fetchEntry done with
    | some entry => return Entry.put entry disk done
    | none => return disk
  | name :: rest => do
    let here := (← IO.currentDir) / done.string
    let known := (disk.find? done).isSome
    if known then bring disk (done ++ [name]) rest
    else if ← here.isDir then
      bring (Entry.put (.folder []) disk done) (done ++ [name]) rest
    else if ← here.pathExists then
      return Entry.put (.file (← IO.FS.readBinFile here).toList) disk done
    else return disk

/-- Brings the entry at a path onto a disk. -/
def bringPath (host : Host) (disk : Disk) (p : Path) : IO Disk :=
  bring disk [] (p.resolve host.working)

/-- Carries out a change. -/
def Change.carryOut : Change → IO Unit
  | removeFile place => IO.FS.removeFile place.string
  | removeFolder place => IO.FS.removeDir place.string
  | makeFolder place => IO.FS.createDirAll place.string
  | writeFile place content => IO.FS.writeBinFile place.string ⟨content.toArray⟩

/-- The home folder of an account in a table of accounts: a line for each, with colons
between its fields, of which the first is the name and the sixth the folder. -/
def homeIn? (table account : Text) : Option Location :=
  (table.splitAt '\n').findSome? fun line =>
    match line.splitAt ':' with
    | name :: _ :: _ :: _ :: _ :: home :: _ =>
      if name = account then some ((Path.parse home).resolve []) else none
    | _ => none

/-- Where the program runs. -/
def currentHost : IO Host := do
  let working := (Path.parse (← IO.currentDir).toString.toList).resolve []
  let home := ((← IO.getEnv "HOME").getD "/").toList
  let accounts ← try IO.FS.readFile "/etc/passwd" catch _ => pure ""
  return {
    working
    home := (Path.parse home).resolve working
    accountHome := homeIn? accounts.toList
    configFolder := (← IO.getEnv "SNIPPET_ENGINE_CONFIG_DIR").map String.toList
    backupFolder := (← IO.getEnv "SNIPPET_ENGINE_BACKUP_DIR").map String.toList }

/-- A disk with one folder at a location, and those on the way to it. -/
def diskWith : Location → Disk
  | [] => .folder []
  | name :: rest => .folder [(name, diskWith rest)]

/-- The disk that a command line runs on. -/
def diskFor (host : Host) (arguments : List Text) : IO Disk := do
  let empty := diskWith host.working
  match CommandLine.read arguments with
  | .invoke i =>
    let disk ← bringPath host empty (i.settingsFile host)
    let s := (disk.settings .simple host i.settings).toOption.getD Settings.default
    (i.footprint host s).foldlM (bringPath host) disk
  | _ => return empty

end Handout

open Handout

/-- Runs a command line. -/
def main (arguments : List String) : IO UInt32 := do
  let host ← currentHost
  let texts := arguments.map String.toList
  let disk ← diskFor host texts
  let (outcome, after) := runCommandLine .simple host disk texts
  for change in disk.changes after do change.carryOut
  IO.print (String.ofList outcome.out)
  IO.eprint (String.ofList outcome.err)
  match outcome.ending with
  | .exit code => return code.toUInt32
  | .escaped e =>
    IO.eprintln (String.ofList e.message)
    return 1
