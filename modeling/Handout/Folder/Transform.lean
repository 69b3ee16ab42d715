/-
# Rendering the files of a folder

A file is rendered completely before anything is written, so a file with a
defect leaves nothing behind. A file without snippets is not touched, nor is,
when solutions are extracted, one without a snippet of the wanted task.

A folder is processed file by file in ascending order. When the markup is kept
the files are replaced where they are; otherwise the output goes to a target folder,
where a file that is in the way is removed first, and the files that were not
rendered are copied unless only rendered ones are wanted. Unless it is a dry
run, a snapshot of the folder is taken first, except when the folder is the one
that was backed up last. The first file that fails ends the run.

Key definitions: `renderBytes`, `transformFile`, `Request`, `Report`,
`transformFolder`.
-/
import Handout.Folder.FileFailure
import Handout.Folder.Snapshot
import Handout.Render.Basic

namespace Handout

/-- The rendering of the content of a file, or nothing if it has no snippet
that matters. -/
def renderBytes (o : Options) (content : Bytes) : Except ContentError (Option Bytes) := do
  let source ← (Utf8.decode content).mapError .encoding
  let d ← (Document.parse source).mapError .format
  if d.snippets.isEmpty || (o.mode = .solution && d.countFor o.cutoff = 0) then
    return none
  else
    let output ← (d.render o).mapError .format
    return some (Utf8.encode output)

/-- Writes a file and makes the folders above it. -/
def writeOutput (host : Host) (target : Path) (content : Bytes) : Run ContentError Unit := do
  Run.act .file (·.makeFolders host.working target.parent)
  Run.change .file (·.writeFile host.working target content)

/-- Renders a file into a target and tells whether it did. -/
def transformFile (host : Host) (o : Options) (dryRun : Bool) (source target : Path) :
    Run ContentError Bool := do
  let content ← Run.ofExcept .file ((← Run.disk).readFile host.working source)
  match ← Run.ofExcept id (renderBytes o content) with
  | none => return false
  | some output =>
    if !dryRun then writeOutput host target output
    return true

/-- What a run over a folder is asked for. -/
structure Request where
  folder : Text
  target : Option Text
  extensions : List Text
  options : Options
  onlyTransformed : Bool
  dryRun : Bool
deriving Repr, DecidableEq

/-- What became of the files of a folder, and where the snapshot is. -/
structure Report where
  transformed : List Text
  copied : List Text
  skipped : List Text
  backup : Option Text
  dryRun : Bool
deriving Repr, DecidableEq

/-- Why a run over a folder fails. -/
inductive RunError where
  /-- The folder is missing. -/
  | missingFolder (folder : Text)
  /-- Output that needs a target has none. -/
  | noTarget
  /-- The target is the folder itself. -/
  | sameFolder
  /-- A home folder is not known. -/
  | noHome
  /-- The snapshot failed. -/
  | snapshot (error : SnapshotError)
  /-- A file operation on the target failed. -/
  | file (error : FileError)
  /-- A file cannot be processed. -/
  | content (path : Text) (cause : ContentError)
deriving Repr, DecidableEq

/-- The wording of a failure. -/
def RunError.message : RunError → Text
  | missingFolder folder => "The directory ".toList ++ folder ++ " does not exist.".toList
  | noTarget => "No output folder is provided for transformation.".toList
  | sameFolder => "The source and target directories cannot be the same.".toList
  | noHome => noHomeMessage
  | snapshot e => e.message
  | file e => e.message
  | content path cause => failureMessage path (some cause.message)

/-- The family of a failure. A file that cannot be processed breaks the run off, whatever
the reason. -/
def RunError.family : RunError → ErrorFamily
  | missingFolder _ | noTarget | sameFolder => .value
  | noHome | content _ _ => .run
  | snapshot e => e.family
  | file e => e.family

/-- What is done with a file. -/
inductive Fate where
  | transformed
  | copied
  | skipped
deriving Repr, DecidableEq

/-- Adds the fate of a file. -/
def Report.add (r : Report) (path : Text) : Fate → Report
  | .transformed => { r with transformed := r.transformed ++ [path] }
  | .copied => { r with copied := r.copied ++ [path] }
  | .skipped => { r with skipped := r.skipped ++ [path] }

/-- Removes the file at an output path, if there is an entry. -/
def clearOutput (host : Host) (output : Path) : Run RunError Unit := do
  if (← Run.disk).hasEntry host.working output then
    Run.change .file (·.removeFile host.working output)

/-- Copies a file and makes the folders above the copy. -/
def copyFile (host : Host) (source target : Path) : Run RunError Unit := do
  Run.act .file (·.makeFolders host.working target.parent)
  let content ← Run.ofExcept .file ((← Run.disk).readFile host.working source)
  Run.change .file (·.writeFile host.working target content)

/-- Processes the file at a location below the source. -/
def visitFile (host : Host) (q : Request) (source : Location) (target : Option Location)
    (file : Location) : Run RunError Fate := do
  let path := Path.ofLocation (source ++ file)
  let output := Path.ofLocation (target.getD source ++ file)
  if target.isSome && !q.dryRun then clearOutput host output
  let transformed ←
    if q.extensions.contains (suffixOf file.name) then
      (transformFile host q.options q.dryRun path output).adapt (RunError.content path.text)
    else pure false
  if transformed then
    Run.tell (.transformed path.text)
    return .transformed
  else if target.isSome && !q.onlyTransformed then
    if !q.dryRun then copyFile host path output
    return .copied
  else return .skipped

/-- Processes files one after another. -/
def visitFiles (host : Host) (q : Request) (source : Location) (target : Option Location) :
    List Location → Report → Run RunError Report
  | [], report => return report
  | file :: rest, report => do
    let fate ← visitFile host q source target file
    visitFiles host q source target rest
      (report.add (Path.ofLocation (source ++ file)).text fate)

/-- The folder that a text names, with a leading `~` replaced. -/
def folderOf (host : Host) (t : Text) : Except RunError Location :=
  match (Path.parse t).expandHome host.homeOf with
  | none => .error .noHome
  | some p => .ok (p.resolve host.working)

/-- The target of a run, if its mode needs one. -/
def targetOf (host : Host) (q : Request) (source : Location) :
    Except RunError (Option Location) :=
  if q.options.mode.keepsMarkup then .ok none
  else
    match q.target with
    | none => .error .noTarget
    | some t =>
      match folderOf host t with
      | .error e => .error e
      | .ok target => if target = source then .error .sameFolder else .ok (some target)

/-- Takes the snapshot, unless the source was backed up last, remembers the
source, and makes the target. -/
def prepare (host : Host) (root : Path) (source : Location) (target : Option Location) :
    Run RunError (Option Text) := do
  let backup ←
    if (← get).last = some source then pure none
    else some <$> (snapshot host source root root.text).adapt RunError.snapshot
  modify fun s => { s with last := some source }
  match target with
  | none => pure ()
  | some t => Run.act .file (·.makeFolders host.working (.ofLocation t))
  return backup.map Path.text

/-- Runs over a folder, with snapshots below `root`. -/
def transformFolder (host : Host) (root : Path) (q : Request) : Run RunError Report := do
  let source ← Run.ofExcept id (folderOf host q.folder)
  match (← Run.disk).find? source with
  | some (.folder entries) =>
    let target ← Run.ofExcept id (targetOf host q source)
    let files := (Entry.folder entries).files
    let backup ← if q.dryRun then pure none else prepare host root source target
    let report ← visitFiles host q source target files ⟨[], [], [], backup, q.dryRun⟩
    Run.tell (.finished source.text report.transformed.length report.copied.length
      report.skipped.length)
    return report
  | _ => throw (.missingFolder q.folder)

/-- The numbers of a report for a reader. -/
def Report.summary (r : Report) : Text :=
  Text.joinWith ['\n']
    (["Folder Transformation Results".toList, List.replicate 40 '─',
      "  Transformed: ".toList ++ Text.ofNat r.transformed.length,
      "  Copied:      ".toList ++ Text.ofNat r.copied.length,
      "  Skipped:     ".toList ++ Text.ofNat r.skipped.length]
    ++ (match r.backup with
      | none => []
      | some place => ["  Backup:      ".toList ++ place])
    ++ (if r.dryRun then ["\n[DRY RUN] No files were modified.".toList] else []))

end Handout
