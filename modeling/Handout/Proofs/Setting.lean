/-
# Settings are independent of each other

A command that changes a setting loads all settings, changes one and saves all of them. What
is loaded can be saved and loaded again without a loss (`Kept`), by any library that reads what
it writes, so the other settings are what they were: that is one step
(`settings_after_setting`). A step fails for two reasons. A filter with a bad entry is refused
before anything is written (`runCommandLine_refused`); or the file cannot be written, which
happens only where there is none (`ending_of_hasFile`). Then there is none afterwards either, so
that the default settings are loaded both times (`Disk.not_holds_of_store`), or its path starts
at no folder, and nothing at all has changed.

After a sequence of commands, for the extensions and for the backup folder, the last command
counts that set them and succeeded; what none set is as it was loaded before
(`settings_are_independent`, by induction over the sequence).

Key definitions: `SettingChange`, `Asks`, `runCommandLines`, `lastSucceeded`, `SetBy`.
Key theorems: `run_changeSettings`, `settings_after_setting`, `ending_of_hasFile`,
`settings_are_independent`.
-/
import Handout.Command.Run
import Handout.Proofs.Layout
import Handout.Proofs.Leading

namespace Handout

/-! ### Commands that change a setting -/

/-- What a command sets. -/
inductive SettingChange where
  | extensions (filter : Text)
  | backup (folder : Text)
deriving Repr, DecidableEq

namespace SettingChange

/-- The command that makes the change. -/
def command : SettingChange → Command
  | extensions filter => .setExtensions filter
  | backup folder => .setBackupFolder folder

/-- The settings with the change. -/
def apply (change : SettingChange) (s : Settings) : Except BadExtension Settings :=
  match change with
  | extensions filter => (parseExtensions filter).map fun e => { s with extensions := e }
  | backup folder => .ok { s with backupFolder := some folder }

/-- The filter that is set. -/
def filter? : SettingChange → Option Text
  | extensions filter => some filter
  | backup _ => none

/-- The backup folder that is set. -/
def folder? : SettingChange → Option Text
  | extensions _ => none
  | backup folder => some folder

/-- The change is to a filter without a bad entry or to a backup folder. -/
def Valid (change : SettingChange) : Prop :=
  ∀ filter, change.filter? = some filter → ∃ extensions, parseExtensions filter = .ok extensions

theorem valid_iff (s : Settings) (change : SettingChange) :
    change.Valid ↔ ∃ changed, change.apply s = .ok changed := by
  cases change with
  | extensions filter =>
    simp only [Valid, filter?, Option.some.injEq, forall_eq', apply]
    cases parseExtensions filter <;> simp [Except.map]
  | backup folder => simp [Valid, filter?, apply]

end SettingChange

/-- A command line asks for a change in the settings file that is named, or in the usual one if
none is named. -/
def Asks (host : Host) (file : Option Text) (arguments : List Text) (change : SettingChange) :
    Prop :=
  ∃ i, CommandLine.read arguments = .invoke i ∧ i.command = change.command ∧
    pathOr host.settingsPath i.settings = pathOr host.settingsPath file

/-- Runs command lines one after another: how they end, and the disk that is left. -/
def runCommandLines (yaml : Yaml) (host : Host) :
    Disk → List (List Text) → List Outcome × Disk
  | disk, [] => ([], disk)
  | disk, arguments :: r =>
    let first := runCommandLine yaml host disk arguments
    let rest := runCommandLines yaml host first.2 r
    (first.1 :: rest.1, rest.2)

/-! ### One command -/

variable {yaml : Yaml}

/-- Settings are saved by storing their document. -/
theorem run_saveSettings (yaml : Yaml) (host : Host) (file : Option Text) (settings : Settings)
    (s : Session) :
    let path := pathOr host.settingsPath file
    let content := Utf8.encode (yaml.dump settings.toValue)
    let stored := s.disk.store host.working path content
    (saveSettings yaml host file settings).run.run s =
      ((stored.1.map fun _ => path).mapError .file, { s with disk := stored.2 }) := by
  intro path content stored
  have hrun : (saveSettings yaml host file settings).run.run s =
      (Run.act SettingsError.file (·.makeFolders host.working path.parent) >>= fun _ =>
        Run.change .file (·.writeFile host.working path content) >>= fun _ =>
          (pure path : Run SettingsError Path)).run.run s := rfl
  rw [hrun, Run.run_bind, Run.run_act]
  simp only [stored, Disk.store]
  rcases s.disk.makeFolders host.working path.parent with ⟨e | _, made⟩
  · rfl
  · simp only [Except.mapError, Run.run_bind, Run.run_change]
    cases made.writeFile host.working path content with
    | error e => rfl
    | ok written => rfl

theorem run_loadSettings (yaml : Yaml) (host : Host) (file : Option Text) (s : Session) :
    (loadSettings yaml host file).run.run s = (s.disk.settings yaml host file, s) := by
  rw [loadSettings, Run.run_bind, Run.run_disk]
  simp only [Run.run_ofExcept]
  cases s.disk.settings yaml host file with
  | error e => rfl
  | ok settings => rfl

/-- Settings are loaded, changed and saved, each if what was before it succeeded. -/
theorem run_changeSettings (yaml : Yaml) (host : Host) (file : Option Text)
    (change : Settings → Except BadExtension Settings) (told : Settings → Text) (s : Session) :
    (changeSettings yaml host file change told).run.run s =
      match s.disk.settings yaml host file with
      | .error e => (.error (.settings e), s)
      | .ok before =>
        match change before with
        | .error e => (.error (.extension e), s)
        | .ok changed =>
          let path := pathOr host.settingsPath file
          let stored := s.disk.store host.working path (Utf8.encode (yaml.dump changed.toValue))
          ((stored.1.map fun _ =>
              told changed ++ ['\n'] ++ "  Saved ".toList ++ path.text ++ ['\n']).mapError
            fun e => .settings (.file e), { s with disk := stored.2 }) := by
  rw [changeSettings, Run.run_bind, Run.run_adapt, run_loadSettings]
  cases s.disk.settings yaml host file with
  | error e => rfl
  | ok before =>
    simp only [Except.mapError, Run.run_bind, Run.run_ofExcept]
    cases change before with
    | error e => rfl
    | ok changed =>
      simp only [Run.run_adapt, run_saveSettings]
      cases (s.disk.store host.working (pathOr host.settingsPath file)
        (Utf8.encode (yaml.dump changed.toValue))).1 with
      | error e => rfl
      | ok _ => rfl

theorem exists_run_eq (yaml : Yaml) (host : Host) {i : Invocation} {change : SettingChange}
    (h : i.command = change.command) : ∃ told,
      i.run yaml host = changeSettings yaml host i.settings change.apply told := by
  rw [Invocation.run, h]
  cases change with
  | extensions filter => exact ⟨_, rfl⟩
  | backup folder => exact ⟨_, rfl⟩

section Command

variable {host : Host} {file : Option Text} {disk : Disk} {arguments : List Text}
  {change : SettingChange} {before : Settings}

theorem Disk.settings_congr {file' : Option Text}
    (h : pathOr host.settingsPath file' = pathOr host.settingsPath file) :
    disk.settings yaml host file' = disk.settings yaml host file := by
  unfold Disk.settings
  rw [h]

/-- The command line runs the change on the disk, and succeeds if that answers. -/
theorem runCommandLine_asks (yaml : Yaml) (hasks : Asks host file arguments change)
    (disk : Disk) : ∃ file' told, pathOr host.settingsPath file' = pathOr host.settingsPath file ∧
      let ran := (changeSettings yaml host file' change.apply told).run.run ⟨disk, none, []⟩
      (runCommandLine yaml host disk arguments).2 = ran.2.disk ∧
        ((runCommandLine yaml host disk arguments).1.ending = .exit 0 ↔
          ∃ out, ran.1 = .ok out) := by
  obtain ⟨i, hread, hcommand, hpath⟩ := hasks
  obtain ⟨told, hrun⟩ := exists_run_eq yaml host hcommand
  refine ⟨i.settings, told, hpath, ?_⟩
  rw [runCommandLine, hread]
  simp only [hrun]
  rcases (changeSettings yaml host i.settings change.apply told).run.run ⟨disk, none, []⟩ with
    ⟨e | out, session⟩
  · refine ⟨rfl, ?_⟩
    simp only [outcomeOf, reduceCtorEq, exists_false, iff_false]
    split
    · simp
    · simp
  · exact ⟨rfl, iff_of_true rfl ⟨out, rfl⟩⟩

/-- A change that is not valid is refused before anything is written. -/
theorem runCommandLine_refused (yaml : Yaml) (hasks : Asks host file arguments change)
    (hinvalid : ¬ change.Valid) (disk : Disk) :
    (runCommandLine yaml host disk arguments).2 = disk ∧
      (runCommandLine yaml host disk arguments).1.ending ≠ .exit 0 := by
  obtain ⟨file', told, -, hdisk, hending⟩ := runCommandLine_asks yaml hasks disk
  rw [run_changeSettings] at hdisk hending
  cases hb : disk.settings yaml host file' with
  | error e =>
    simp only [hb] at hdisk hending
    exact ⟨hdisk, by simp [hending]⟩
  | ok before =>
    cases ha : change.apply before with
    | error e =>
      simp only [hb, ha] at hdisk hending
      exact ⟨hdisk, by simp [hending]⟩
    | ok changed =>
      exact absurd ((SettingChange.valid_iff before change).mpr ⟨changed, ha⟩) hinvalid

/-- Any other change is stored, and the command succeeds if that does. -/
theorem runCommandLine_stored {changed : Settings} (hasks : Asks host file arguments change)
    (hbefore : disk.settings yaml host file = .ok before)
    (hchanged : change.apply before = .ok changed) :
    let stored := disk.store host.working (pathOr host.settingsPath file)
      (Utf8.encode (yaml.dump changed.toValue))
    (runCommandLine yaml host disk arguments).2 = stored.2 ∧
      ((runCommandLine yaml host disk arguments).1.ending = .exit 0 ↔ stored.1 = .ok ()) := by
  intro stored
  obtain ⟨file', told, hpath, hdisk, hending⟩ := runCommandLine_asks yaml hasks disk
  rw [run_changeSettings] at hdisk hending
  simp only [Disk.settings_congr hpath, hbefore, hchanged, hpath] at hdisk hending
  refine ⟨hdisk, hending.trans ?_⟩
  show (∃ out, Except.mapError _ (Except.map _ stored.1) = .ok out) ↔ _
  cases stored.1 with
  | error e => simp [Except.map, Except.mapError]
  | ok _ => simp [Except.map, Except.mapError]

/-! ### What is loaded before and after -/

theorem Disk.settings_of_holds {content : Bytes}
    (h : disk.Holds host.working (pathOr host.settingsPath file) content) :
    disk.settings yaml host file =
      Settings.ofBytes yaml (pathOr host.settingsPath file).text content := by
  unfold Disk.settings
  simp only [if_pos (Disk.hasFile_iff.mpr ⟨content, h⟩), h.readFile_eq]
  rfl

theorem Disk.settings_of_not_holds
    (h : ∀ content, ¬ disk.Holds host.working (pathOr host.settingsPath file) content) :
    disk.settings yaml host file = .ok Settings.default := by
  unfold Disk.settings
  refine if_neg fun hfile => ?_
  obtain ⟨content, hholds⟩ := Disk.hasFile_iff.mp hfile
  exact h content hholds

theorem Settings.kept_of_settings (h : disk.settings yaml host file = .ok before) :
    before.Kept := by
  by_cases hholds : ∃ content, disk.Holds host.working (pathOr host.settingsPath file) content
  · obtain ⟨content, hcontent⟩ := hholds
    rw [Disk.settings_of_holds hcontent] at h
    exact Settings.kept_ofBytes h
  · rw [Disk.settings_of_not_holds (not_exists.mp hholds)] at h
    cases h
    exact Settings.kept_default

theorem SettingChange.listed_apply {changed : Settings} (hbefore : before.Kept)
    (h : change.apply before = .ok changed) : Listed changed.extensions := by
  cases change with
  | backup folder =>
    cases h
    exact hbefore.listed
  | extensions filter =>
    rw [apply] at h
    cases hp : parseExtensions filter with
    | error e => rw [hp] at h; cases h
    | ok extensions =>
      rw [hp] at h
      cases h
      exact (parseExtensions_eq_ok hp).2

/-- A change that could not be stored changes nothing of what is loaded. -/
theorem Disk.settings_of_not_stored {content : Bytes}
    (hbefore : disk.settings yaml host file = .ok before)
    (hfail : (disk.store host.working (pathOr host.settingsPath file) content).1 ≠ .ok ()) :
    (disk.store host.working (pathOr host.settingsPath file) content).2.settings yaml host file =
      .ok before := by
  by_cases hbase : disk.look ((pathOr host.settingsPath file).base host.working) = some .folder
  · -- there is no file, so the default settings are loaded before and after
    have hnone : ∀ c, ¬ disk.Holds host.working (pathOr host.settingsPath file) c :=
      fun c hholds => hfail (store_of_holds hbase hholds content)
    rw [settings_of_not_holds hnone] at hbefore
    rw [← hbefore]
    exact settings_of_not_holds (not_holds_of_store hbase hfail)
  · obtain ⟨e, hsame⟩ := store_of_not_folder hbase content
    rw [hsame]
    exact hbefore

/-- A change that was stored is loaded again. -/
theorem Disk.settings_of_stored {changed : Settings} (hyaml : yaml.Faithful)
    (hlisted : Listed changed.extensions)
    (hok : (disk.store host.working (pathOr host.settingsPath file)
      (Utf8.encode (yaml.dump changed.toValue))).1 = .ok ()) :
    (disk.store host.working (pathOr host.settingsPath file)
      (Utf8.encode (yaml.dump changed.toValue))).2.settings yaml host file =
        .ok changed.reloaded := by
  have hbase : disk.look ((pathOr host.settingsPath file).base host.working) = some .folder := by
    by_contra hbase
    obtain ⟨e, hsame⟩ := store_of_not_folder hbase (Utf8.encode (yaml.dump changed.toValue))
    rw [hsame] at hok
    cases hok
  rw [settings_of_holds (holds_of_store hbase hok)]
  exact Settings.ofBytes_saved hyaml _ hlisted

/-- After a command that succeeded the settings with its change are loaded, as they are after
they were saved. After one that failed the same settings are loaded as before. -/
theorem settings_after_setting (hyaml : yaml.Faithful)
    (hbefore : disk.settings yaml host file = .ok before)
    (hasks : Asks host file arguments change) :
    let ran := runCommandLine yaml host disk arguments
    (ran.1.ending ≠ .exit 0 → ran.2.settings yaml host file = .ok before) ∧
      (ran.1.ending = .exit 0 → ∃ changed, change.apply before = .ok changed ∧
        ran.2.settings yaml host file = .ok changed.reloaded) := by
  intro ran
  cases hchange : change.apply before with
  | error e =>
    have hinvalid : ¬ change.Valid := by
      rw [SettingChange.valid_iff before, hchange]
      simp
    obtain ⟨hdisk, hending⟩ := runCommandLine_refused yaml hasks hinvalid disk
    exact ⟨fun _ => hdisk ▸ hbefore, fun h => absurd h hending⟩
  | ok changed =>
    obtain ⟨hdisk, hending⟩ := runCommandLine_stored hasks hbefore hchange
    have hlisted := SettingChange.listed_apply (Settings.kept_of_settings hbefore) hchange
    refine ⟨fun hfail => ?_, fun hok => ⟨changed, rfl, ?_⟩⟩
    · rw [hdisk]
      exact Disk.settings_of_not_stored hbefore fun h => hfail (hending.mpr h)
    · rw [hdisk]
      exact Disk.settings_of_stored hyaml hlisted (hending.mp hok)

/-- Where the settings file is there, below a folder, a valid change succeeds. -/
theorem ending_of_hasFile
    (hbase : disk.look ((pathOr host.settingsPath file).base host.working) = some .folder)
    (hbefore : disk.settings yaml host file = .ok before) (hasks : Asks host file arguments change)
    (hvalid : change.Valid)
    (hfile : disk.hasFile host.working (pathOr host.settingsPath file) = true) :
    (runCommandLine yaml host disk arguments).1.ending = .exit 0 := by
  obtain ⟨content, hholds⟩ := Disk.hasFile_iff.mp hfile
  obtain ⟨changed, hchange⟩ := (SettingChange.valid_iff before change).mp hvalid
  obtain ⟨-, hending⟩ := runCommandLine_stored hasks hbefore hchange
  exact hending.mpr (Disk.store_of_holds hbase hholds _)

end Command

/-! ### A sequence of commands -/

/-- Of the changes that succeeded, what the last one sets that sets something. -/
def lastSucceeded (pick : SettingChange → Option Text)
    (steps : List (SettingChange × Outcome)) : Option Text :=
  steps.reverse.findSome? fun p => if p.2.ending = .exit 0 then pick p.1 else none

theorem lastSucceeded_append (pick : SettingChange → Option Text)
    (first second : List (SettingChange × Outcome)) :
    lastSucceeded pick (first ++ second) =
      (lastSucceeded pick second).or (lastSucceeded pick first) := by
  rw [lastSucceeded, List.reverse_append, List.findSome?_append]
  rfl

theorem lastSucceeded_of_ne {o : Outcome} (h : o.ending ≠ .exit 0)
    (pick : SettingChange → Option Text) (change : SettingChange) :
    lastSucceeded pick [(change, o)] = none := by
  simp [lastSucceeded, h]

theorem lastSucceeded_of_eq {o : Outcome} (h : o.ending = .exit 0)
    (pick : SettingChange → Option Text) (change : SettingChange) :
    lastSucceeded pick [(change, o)] = pick change := by
  simp [lastSucceeded, h]

/-- What is loaded after some changes, of which those count that succeeded: what was set last,
or else what was loaded before. -/
structure SetBy (before : Settings) (steps : List (SettingChange × Outcome))
    (after : Settings) : Prop where
  extensions_set : ∀ filter, lastSucceeded SettingChange.filter? steps = some filter →
    parseExtensions filter = .ok after.extensions
  extensions_kept : lastSucceeded SettingChange.filter? steps = none →
    after.extensions = before.extensions
  backup_set : ∀ folder, lastSucceeded SettingChange.folder? steps = some folder →
    after.backupFolder = if folder = [] then none else some folder
  backup_kept : lastSucceeded SettingChange.folder? steps = none →
    after.backupFolder = before.backupFolder
  special_kept : after.preferSpecial = before.preferSpecial

namespace SetBy

theorem nil (s : Settings) : SetBy s [] s where
  extensions_set _ h := by cases h
  extensions_kept _ := rfl
  backup_set _ h := by cases h
  backup_kept _ := rfl
  special_kept := rfl

/-- A setting that later changes do not set is as the earlier ones left it. -/
theorem append {a b c : Settings} {first second : List (SettingChange × Outcome)}
    (h : SetBy a first b) (h' : SetBy b second c) : SetBy a (first ++ second) c where
  extensions_set filter hf := by
    rw [lastSucceeded_append, Option.or_eq_some_iff] at hf
    rcases hf with hf | ⟨hnone, hf⟩
    · exact h'.extensions_set filter hf
    · rw [h'.extensions_kept hnone]
      exact h.extensions_set filter hf
  extensions_kept hf := by
    rw [lastSucceeded_append, Option.or_eq_none_iff] at hf
    exact (h'.extensions_kept hf.1).trans (h.extensions_kept hf.2)
  backup_set folder hf := by
    rw [lastSucceeded_append, Option.or_eq_some_iff] at hf
    rcases hf with hf | ⟨hnone, hf⟩
    · exact h'.backup_set folder hf
    · rw [h'.backup_kept hnone]
      exact h.backup_set folder hf
  backup_kept hf := by
    rw [lastSucceeded_append, Option.or_eq_none_iff] at hf
    exact (h'.backup_kept hf.1).trans (h.backup_kept hf.2)
  special_kept := h'.special_kept.trans h.special_kept

theorem failed {o : Outcome} (h : o.ending ≠ .exit 0) (change : SettingChange) (s : Settings) :
    SetBy s [(change, o)] s where
  extensions_set _ hf := by
    rw [lastSucceeded_of_ne h] at hf
    cases hf
  extensions_kept _ := rfl
  backup_set _ hf := by
    rw [lastSucceeded_of_ne h] at hf
    cases hf
  backup_kept _ := rfl
  special_kept := rfl

/-- A change that succeeded sets what it is about. The rest was loaded, so that it is loaded
again as it was saved. -/
theorem succeeded {o : Outcome} (h : o.ending = .exit 0) {change : SettingChange}
    {before changed : Settings} (hbefore : before.Kept)
    (hchange : change.apply before = .ok changed) :
    SetBy before [(change, o)] changed.reloaded := by
  cases change with
  | extensions filter =>
    obtain ⟨extensions, hp, rfl⟩ : ∃ extensions, parseExtensions filter = .ok extensions ∧
        changed = { before with extensions } := by
      rw [SettingChange.apply] at hchange
      cases hp : parseExtensions filter with
      | error e => rw [hp] at hchange; cases hchange
      | ok extensions =>
        rw [hp] at hchange
        cases hchange
        exact ⟨extensions, rfl, rfl⟩
    have hkept : Settings.Kept { before with extensions } :=
      ⟨(parseExtensions_eq_ok hp).2, hbefore.named⟩
    rw [Settings.reloaded_of_kept hkept]
    refine ⟨fun filter' hf => ?_, fun hf => ?_, fun folder hf => ?_, fun _ => rfl, rfl⟩
    · rw [lastSucceeded_of_eq h] at hf
      cases hf
      exact hp
    · rw [lastSucceeded_of_eq h] at hf
      cases hf
    · rw [lastSucceeded_of_eq h] at hf
      cases hf
  | backup folder =>
    cases hchange
    refine ⟨fun filter hf => ?_, fun _ => rfl, fun folder' hf => ?_, fun hf => ?_, rfl⟩
    · rw [lastSucceeded_of_eq h] at hf
      cases hf
    · rw [lastSucceeded_of_eq h] at hf
      cases hf
      cases folder with
      | nil => rfl
      | cons c r => rfl
    · rw [lastSucceeded_of_eq h] at hf
      cases hf

end SetBy

section Sequence

variable {host : Host} {file : Option Text}

/-- The run of a sequence, command by command. -/
theorem setBy_runCommandLines (hyaml : yaml.Faithful) :
    ∀ {lines : List (List Text × SettingChange)} {disk : Disk} {before : Settings},
      (∀ l ∈ lines, Asks host file l.1 l.2) → disk.settings yaml host file = .ok before →
        let ran := runCommandLines yaml host disk (lines.map (·.1))
        ∃ after, ran.2.settings yaml host file = .ok after ∧
          SetBy before ((lines.map (·.2)).zip ran.1) after
  | [], disk, before, _, hbefore => ⟨before, hbefore, SetBy.nil before⟩
  | (arguments, change) :: lines, disk, before, hlines, hbefore => by
    obtain ⟨hasks, hrest⟩ := List.forall_mem_cons.mp hlines
    obtain ⟨hfailed, hsucceeded⟩ := settings_after_setting hyaml hbefore hasks
    by_cases hok : (runCommandLine yaml host disk arguments).1.ending = .exit 0
    · obtain ⟨changed, hchange, hmid⟩ := hsucceeded hok
      obtain ⟨after, hafter, hset⟩ := setBy_runCommandLines hyaml hrest hmid
      have hkept := Settings.kept_of_settings hbefore
      exact ⟨after, hafter, (SetBy.succeeded hok hkept hchange).append hset⟩
    · obtain ⟨after, hafter, hset⟩ := setBy_runCommandLines hyaml hrest (hfailed hok)
      exact ⟨after, hafter, (SetBy.failed hok change before).append hset⟩

/-- **Settings are independent of each other**, if the library reads what it has written for
settings. Take any sequence of commands that change settings in a file that can be loaded or is
missing. What is loaded afterwards has the extensions of the last command that set them and
succeeded, the backup folder of the last one that set it and succeeded, none if its name was
empty, and everything else as it was loaded before. A command with a bad filter leaves the disk
as it is. -/
theorem settings_are_independent (hyaml : yaml.Faithful) {disk : Disk} {before : Settings}
    {lines : List (List Text × SettingChange)} (hlines : ∀ l ∈ lines, Asks host file l.1 l.2)
    (hbefore : disk.settings yaml host file = .ok before) :
    let ran := runCommandLines yaml host disk (lines.map (·.1))
    (∃ after, ran.2.settings yaml host file = .ok after ∧
        SetBy before ((lines.map (·.2)).zip ran.1) after) ∧
      ∀ front l back, lines = front ++ l :: back → ¬ l.2.Valid →
        let reached := (runCommandLines yaml host disk (front.map (·.1))).2
        (runCommandLine yaml host reached l.1).2 = reached := by
  intro ran
  refine ⟨setBy_runCommandLines hyaml hlines hbefore, ?_⟩
  rintro front l back rfl hinvalid reached
  have hasks : Asks host file l.1 l.2 := hlines l (by simp)
  exact (runCommandLine_refused yaml hasks hinvalid reached).1

end Sequence

/-- A host in the folder `w`. -/
def workHost : Host := .bare ["w".toList] ["w".toList, "home".toList]

/-- A settings file in the folder `w`. -/
def workDisk : Disk :=
  .folder [("w".toList, .folder [("s.yaml".toList,
    .file (Utf8.encode "extensions: .a\nprefer_special_solution: yes\n".toList))])]

/-- The arguments of a command for a settings file. -/
def settingsArguments (file command value : String) : List Text :=
  ["--settings".toList, file.toList, "settings".toList, command.toList, value.toList]

/-- Two backup folders and two filters, of which the second is bad. -/
def fourLines : List (List Text × SettingChange) :=
  [(settingsArguments "s.yaml" "set-backup-dir" "old", .backup "old".toList),
   (settingsArguments "s.yaml" "set-extensions" " .x  .y", .extensions " .x  .y".toList),
   (settingsArguments "./s.yaml" "set-extensions" ".z w", .extensions ".z w".toList),
   (settingsArguments "s.yaml" "set-backup-dir" "new", .backup "new".toList)]

theorem settings_are_independent_fourLines :
    (∀ l ∈ fourLines, Asks workHost (some "s.yaml".toList) l.1 l.2) ∧
      workDisk.settings .simple workHost (some "s.yaml".toList) = .ok ⟨[".a".toList], none, true⟩ ∧
      (runCommandLines .simple workHost workDisk (fourLines.map (·.1))).2.settings .simple workHost
          (some "s.yaml".toList) =
        .ok ⟨[".x".toList, ".y".toList], some "new".toList, true⟩ := by
  have hlines : ∀ l ∈ fourLines, Asks workHost (some "s.yaml".toList) l.1 l.2 := by
    simp only [fourLines, List.forall_mem_cons, List.not_mem_nil, false_implies, implies_true,
      and_true]
    refine ⟨⟨⟨some "s.yaml".toList, false, .setBackupFolder "old".toList⟩, ?_⟩,
      ⟨⟨some "s.yaml".toList, false, .setExtensions " .x  .y".toList⟩, ?_⟩,
      ⟨⟨some "./s.yaml".toList, false, .setExtensions ".z w".toList⟩, ?_⟩,
      ⟨⟨some "s.yaml".toList, false, .setBackupFolder "new".toList⟩, ?_⟩⟩
    · exact ⟨by decide +kernel, rfl, rfl⟩
    · exact ⟨by decide +kernel, rfl, rfl⟩
    · exact ⟨by decide +kernel, rfl, by decide +kernel⟩
    · exact ⟨by decide +kernel, rfl, rfl⟩
  have hbefore : workDisk.settings .simple workHost (some "s.yaml".toList) =
      .ok ⟨[".a".toList], none, true⟩ := by decide +kernel
  refine ⟨hlines, hbefore, ?_⟩
  obtain ⟨⟨after, hafter, hset⟩, -⟩ :=
    settings_are_independent Yaml.simple_faithful hlines hbefore
  have hfilter := hset.extensions_set " .x  .y".toList (by decide +kernel)
  have hfolder := hset.backup_set "new".toList (by decide +kernel)
  have hparsed : parseExtensions " .x  .y".toList = .ok [".x".toList, ".y".toList] := by
    decide +kernel
  rw [hparsed, Except.ok.injEq] at hfilter
  rw [hafter, Except.ok.injEq]
  obtain ⟨extensions, backupFolder, preferSpecial⟩ := after
  rw [Settings.mk.injEq]
  exact ⟨hfilter.symm, hfolder.trans (if_neg (by decide +kernel)), hset.special_kept⟩

/-- Where the settings file is missing and cannot be written, here because a file stands in the
place of the folder above it, a backup folder is not set. -/
theorem backup_not_set_unwritable :
    ¬ ∀ (yaml : Yaml) (host : Host) (file : Option Text) (disk : Disk) (before : Settings)
        (arguments : List Text) (folder : Text), yaml.Faithful →
      disk.settings yaml host file = .ok before → Asks host file arguments (.backup folder) →
        ∃ after, (runCommandLine yaml host disk arguments).2.settings yaml host file = .ok after ∧
          after.backupFolder = if folder = [] then none else some folder := by
  intro h
  have hasks : Asks workHost (some "f/s.yaml".toList)
      (settingsArguments "f/s.yaml" "set-backup-dir" "b") (.backup "b".toList) :=
    ⟨⟨some "f/s.yaml".toList, false, .setBackupFolder "b".toList⟩, by decide +kernel, rfl, rfl⟩
  obtain ⟨after, hafter, hfolder⟩ := h .simple workHost (some "f/s.yaml".toList)
    (.folder [("w".toList, .folder [("f".toList, .file [])])]) .default
    (settingsArguments "f/s.yaml" "set-backup-dir" "b") "b".toList Yaml.simple_faithful
    (by decide +kernel) hasks
  have hdefault : (runCommandLine .simple workHost
      (.folder [("w".toList, .folder [("f".toList, .file [])])])
      (settingsArguments "f/s.yaml" "set-backup-dir" "b")).2.settings .simple workHost
        (some "f/s.yaml".toList) = .ok .default := by decide +kernel
  rw [hdefault, Except.ok.injEq] at hafter
  rw [← hafter] at hfolder
  exact absurd hfolder (by decide +kernel)

end Handout
