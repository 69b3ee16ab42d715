/-
# Which errors a command line contains

Every error belongs to a family, and a command line contains those of four families: a value
is not accepted, a run broke off, a file operation failed, a text is no document. Errors of
other families, such as that of a value of a type that does not fit, are not contained.

A command that uses the settings loads them first (`Invocation.exists_loading`). What it does
then fails with caught errors only, because each of its operations does and one after the other
does too (`Run.FailsWith.bind`). So an error escapes exactly if loading fails with one that is
not caught, and then nothing has been done (`Invocation.run_eq_uncaught_iff`). Loading does so
exactly if the library fails on the settings file with such an error, or finds a map in it whose
filter is neither a text nor has items (`Escapes`, `Disk.settings_eq_uncaught_iff`). Whatever
else stands in it is read or refused, and a command line that makes sense exits with zero or one
(`errors_contained_iff`). All this is so for any library that reads the file.

Key definitions: `CommandError.Caught`, `Value.isFilter`, `Escapes`, `LoadsEscaping`.
Key theorems: `Invocation.run_eq_uncaught_iff`, `Disk.settings_eq_uncaught_iff`,
`errors_contained_iff`.
-/
import Handout.Proofs.Refusing
import Handout.Proofs.Setting

namespace Handout

/-! ### Errors that are caught -/

theorem mem_caughtFamilies {f : ErrorFamily} : f ∈ caughtFamilies ↔ f ≠ .type ∧ f ≠ .other := by
  cases f <;> decide

/-- A file operation fails with an error that is caught. -/
theorem FileError.family_mem (e : FileError) : e.family ∈ caughtFamilies := by
  rw [mem_caughtFamilies]
  cases e with
  | failed fault path => simp [family]
  | removal path => simp [family]
  | endless nested report => cases nested <;> simp [family]

theorem ContentError.family_mem (e : ContentError) : e.family ∈ caughtFamilies := by
  cases e with
  | file e => exact e.family_mem
  | encoding d | format e => simp [family, mem_caughtFamilies]

theorem SnapshotError.family_mem (e : SnapshotError) : e.family ∈ caughtFamilies := by
  cases e with
  | file e => exact e.family_mem
  | inside root source | noHome => simp [family, mem_caughtFamilies]

theorem RunError.family_mem (e : RunError) : e.family ∈ caughtFamilies := by
  cases e with
  | snapshot e => exact e.family_mem
  | file e => exact e.family_mem
  | missingFolder folder | noTarget | sameFolder | noHome | content path cause =>
    simp [family, mem_caughtFamilies]

namespace CommandError

/-- The error belongs to a family that is caught. -/
def Caught (e : CommandError) : Prop := e.family ∈ caughtFamilies

/-- A command line contains the errors that are caught. -/
theorem isContained_iff {e : CommandError} : e.isContained = true ↔ e.Caught :=
  List.contains_iff_mem

theorem caught_extension (e : BadExtension) : Caught (.extension e) := by
  simp [Caught, family, mem_caughtFamilies]

theorem caught_content (e : ContentError) : Caught (.content e) := e.family_mem

theorem caught_folder (e : RunError) : Caught (.folder e) := e.family_mem

theorem caught_file (e : FileError) : Caught (.settings (.file e)) := e.family_mem

end CommandError

open CommandError

/-! ### What follows the loading -/

section Commands

variable {yaml : Yaml} {host : Host}

theorem taskOption_failsWith (t : Option Text) : Run.FailsWith Caught (taskOption t) :=
  .ofExcept (fun _ => caught_content _) _

theorem chosenExtensions_failsWith (given : Option Text) (s : Settings) :
    Run.FailsWith Caught (chosenExtensions given s) := by
  unfold chosenExtensions
  split
  · exact .ofExcept caught_extension _
  · exact .pure _

theorem readDocument_failsWith (file : Text) : Run.FailsWith Caught (readDocument host file) := by
  refine .bind .disk fun disk => .bind ?_ fun content => .bind ?_ fun source => ?_
  · exact .ofExcept (fun _ => caught_content _) _
  · exact .ofExcept (fun _ => caught_content _) _
  · exact .ofExcept (fun _ => caught_content _) _

/-- Saving fails only where a file operation does. -/
theorem saveSettings_failsWith (file : Option Text) (s : Settings) :
    Run.FailsWith (fun e => ∃ f, e = .file f) (saveSettings yaml host file s) :=
  .bind (.act (fun f => ⟨f, rfl⟩) _) fun _ => .bind (.change (fun f => ⟨f, rfl⟩) _) fun _ =>
    .pure _

/-- Does a command load the settings? -/
def Command.loadsSettings : Command → Bool
  | .inspect _ => false
  | _ => true

/-- A command that does not load the settings fails with caught errors only. -/
theorem Invocation.failsWith_of_not_loading {i : Invocation}
    (h : i.command.loadsSettings = false) : Run.FailsWith Caught (i.run yaml host) := by
  cases hc : i.command with
  | inspect c =>
    rw [run, hc]
    exact .bind (readDocument_failsWith _) fun _ => .bind (taskOption_failsWith _) fun _ => .pure _
  | transform c | render c | showSettings | setExtensions filter | setBackupFolder folder =>
    rw [hc] at h
    cases h

theorem exists_loading_changeSettings (file : Option Text)
    (change : Settings → Except BadExtension Settings) (told : Settings → Text) :
    ∃ f, changeSettings yaml host file change told =
        ((loadSettings yaml host file).adapt CommandError.settings >>= f) ∧
      ∀ s, Run.FailsWith Caught (f s) := by
  refine ⟨_, rfl, fun s => .bind (.ofExcept caught_extension _) fun changed => .bind ?_ fun _ =>
    .pure _⟩
  refine .adapt_of ?_ (saveSettings_failsWith file changed)
  rintro _ ⟨f, rfl⟩
  exact caught_file f

/-- A command that loads the settings does so first, and then fails with caught errors only. -/
theorem Invocation.exists_loading (yaml : Yaml) (host : Host) {i : Invocation}
    (h : i.command.loadsSettings = true) :
    ∃ f, i.run yaml host = ((loadSettings yaml host i.settings).adapt CommandError.settings >>= f) ∧
      ∀ s, Run.FailsWith Caught (f s) := by
  unfold run
  cases hc : i.command with
  | transform c =>
    refine ⟨_, rfl, fun s => ?_⟩
    exact .bind (chosenExtensions_failsWith _ _) fun _ => .bind (taskOption_failsWith _) fun _ =>
      .bind (.adapt caught_folder _) fun _ => .pure _
  | render c =>
    refine ⟨_, rfl, fun s => ?_⟩
    refine .bind (readDocument_failsWith _) fun _ => .bind (taskOption_failsWith _) fun _ =>
      .bind (.ofExcept (fun _ => caught_content _) _) fun output => ?_
    split
    · exact .bind (.adapt caught_content _) fun _ => .pure _
    · exact .pure _
  | inspect c =>
    rw [hc] at h
    cases h
  | showSettings => exact ⟨_, rfl, fun s => .pure _⟩
  | setExtensions filter => exact exists_loading_changeSettings _ _ _
  | setBackupFolder folder => exact exists_loading_changeSettings _ _ _

theorem run_loading (file : Option Text) (f : Settings → Run CommandError Text) (s : Session) :
    ((loadSettings yaml host file).adapt CommandError.settings >>= f).run.run s =
      match s.disk.settings yaml host file with
      | .error e => (.error (.settings e), s)
      | .ok a => (f a).run.run s := by
  rw [Run.run_bind, Run.run_adapt, run_loadSettings]
  cases s.disk.settings yaml host file with
  | error e => rfl
  | ok a => rfl

end Commands

/-! ### Which settings files are not loaded -/

/-- Can a value be a filter? A text can, whatever has items, and nothing, which stands for the
default. -/
def Value.isFilter : Value → Bool
  | .null | .text _ | .list _ | .map _ => true
  | .bool _ | .int _ | .float _ => false
  | .other o => o.items.isSome

/-- A settings file with the content makes an error escape: it is a text, but the library fails
on it with an error that is not caught, or it holds a map whose filter cannot be one. -/
inductive Escapes (yaml : Yaml) (content : Bytes) : SettingsError → Prop
  | unreadable {source : Text} {error : LoadError} (htext : Utf8.decode content = .ok source)
      (hload : yaml.load (unifyBreaks source) = .error error)
      (huncaught : error.family ∉ caughtFamilies) :
      Escapes yaml content (.unreadable error)
  | noFilter {source : Text} {pairs : List (Value × Value)} {v : Value}
      (htext : Utf8.decode content = .ok source)
      (hload : yaml.load (unifyBreaks source) = .ok (.map pairs))
      (hfilter : Value.get? Settings.extensionsKey pairs = some v) (hno : v.isFilter = false) :
      Escapes yaml content (.noFilter v.typeName)

namespace Settings

variable {e : SettingsError}

theorem extensionsOf_some {v : Value} (h : v ≠ .null) :
    extensionsOf (some v) =
      match filterOf? v with
      | some filter => (parseExtensions filter).mapError .extension
      | none => .error (.noFilter v.typeName) := by
  cases v with
  | null => exact absurd rfl h
  | _ => rfl

theorem isFilter_eq {v : Value} (h : v ≠ .null) : v.isFilter = (filterOf? v).isSome := by
  cases v with
  | null => exact absurd rfl h
  | other o => simp [Value.isFilter, filterOf?]
  | _ => rfl

/-- A filter that is one is at worst refused for an entry. -/
theorem not_uncaught_of_filter {filter : Text}
    (h : (parseExtensions filter).mapError SettingsError.extension = .error e) :
    e.family ∈ caughtFamilies := by
  cases hp : parseExtensions filter with
  | ok extensions => simp [hp, Except.mapError] at h
  | error bad =>
    simp only [hp, Except.mapError, Except.error.injEq] at h
    exact h ▸ caught_extension bad

/-- Of what is wrong with a filter, only that it cannot be one is not caught. -/
theorem extensionsOf_eq_uncaught_iff {v : Option Value} :
    (extensionsOf v = .error e ∧ e.family ∉ caughtFamilies) ↔
      ∃ w, v = some w ∧ w.isFilter = false ∧ e = .noFilter w.typeName := by
  rcases v with _ | w
  · simp [extensionsOf]
  · by_cases hnull : w = .null
    · subst hnull
      simp [extensionsOf, Value.isFilter]
    · rw [extensionsOf_some hnull]
      simp only [Option.some.injEq, exists_eq_left', isFilter_eq hnull]
      cases filterOf? w with
      | some filter =>
        refine iff_of_false ?_ (by simp)
        rintro ⟨h, huncaught⟩
        exact huncaught (not_uncaught_of_filter h)
      | none =>
        simp only [Except.error.injEq, Option.isSome_none, true_and]
        constructor
        · rintro ⟨h, -⟩
          exact h.symm
        · rintro rfl
          exact ⟨rfl, by simp [SettingsError.family, mem_caughtFamilies]⟩

theorem ofPairs_eq_error_iff {pairs : List (Value × Value)} :
    ofPairs pairs = .error e ↔ extensionsOf (Value.get? extensionsKey pairs) = .error e := by
  unfold ofPairs
  cases extensionsOf (Value.get? extensionsKey pairs) with
  | error e' => simp [bind, Except.bind]
  | ok extensions => simp [bind, Except.bind, pure, Except.pure]

/-- A value is refused uncaught exactly if it is a map whose filter cannot be one. -/
theorem ofValue_eq_uncaught_iff {path : Text} {v : Value} :
    (ofValue path v = .error e ∧ e.family ∉ caughtFamilies) ↔
      ∃ pairs w, v = .map pairs ∧ Value.get? extensionsKey pairs = some w ∧
        w.isFilter = false ∧ e = .noFilter w.typeName := by
  by_cases hmap : ∃ pairs, v = .map pairs
  · obtain ⟨pairs, rfl⟩ := hmap
    rw [ofValue_map, ofPairs_eq_error_iff, extensionsOf_eq_uncaught_iff]
    simp
  · have hcaught : ∀ e, ofValue path v = .error e → e.family ∈ caughtFamilies := by
      intro e h
      rw [ofValue_of_not_map (not_exists.mp hmap)] at h
      split_ifs at h
      cases h
      simp [SettingsError.family, mem_caughtFamilies]
    refine iff_of_false (fun h => h.2 (hcaught e h.1)) ?_
    rintro ⟨pairs, w, hv, -⟩
    exact hmap ⟨pairs, hv⟩

/-- A content is refused uncaught exactly if it makes an error escape. -/
theorem ofBytes_eq_uncaught_iff {yaml : Yaml} {path : Text} {content : Bytes} :
    (ofBytes yaml path content = .error e ∧ e.family ∉ caughtFamilies) ↔
      Escapes yaml content e := by
  unfold ofBytes
  constructor
  · rintro ⟨h, huncaught⟩
    cases htext : Utf8.decode content with
    | error d =>
      rw [htext] at h
      cases h
      simp [SettingsError.family, mem_caughtFamilies] at huncaught
    | ok source =>
      simp only [htext, Except.mapError, bind, Except.bind] at h
      cases hload : yaml.load (unifyBreaks source) with
      | error error =>
        simp only [hload, Except.error.injEq] at h
        subst h
        exact .unreadable htext hload huncaught
      | ok v =>
        simp only [hload] at h
        obtain ⟨pairs, w, rfl, hfilter, hno, rfl⟩ := ofValue_eq_uncaught_iff.mp ⟨h, huncaught⟩
        exact .noFilter htext hload hfilter hno
  · rintro (⟨htext, hload, huncaught⟩ | ⟨htext, hload, hfilter, hno⟩)
    · refine ⟨?_, huncaught⟩
      simp only [htext, Except.mapError, bind, Except.bind, hload]
    · simp only [htext, Except.mapError, bind, Except.bind, hload]
      exact ofValue_eq_uncaught_iff.mpr ⟨_, _, rfl, hfilter, hno, rfl⟩

end Settings

section Endings

variable {yaml : Yaml} {host : Host} {disk : Disk} {arguments : List Text}

/-- Loading the settings fails uncaught exactly if the file makes an error escape. -/
theorem Disk.settings_eq_uncaught_iff {file : Option Text} {e : SettingsError} :
    (disk.settings yaml host file = .error e ∧ e.family ∉ caughtFamilies) ↔
      ∃ content, disk.Holds host.working (pathOr host.settingsPath file) content ∧
        Escapes yaml content e := by
  constructor
  · rintro ⟨h, huncaught⟩
    by_cases hfile : ∃ content, disk.Holds host.working (pathOr host.settingsPath file) content
    · obtain ⟨content, hholds⟩ := hfile
      rw [settings_of_holds hholds] at h
      exact ⟨content, hholds, Settings.ofBytes_eq_uncaught_iff.mp ⟨h, huncaught⟩⟩
    · rw [settings_of_not_holds (not_exists.mp hfile)] at h
      cases h
  · rintro ⟨content, hholds, hescapes⟩
    rw [settings_of_holds hholds]
    exact Settings.ofBytes_eq_uncaught_iff.mpr hescapes

/-! ### How a command line ends -/

/-- A command fails uncaught exactly if loading the settings does, and then has done nothing. -/
theorem Invocation.run_eq_uncaught_iff {i : Invocation} {s s' : Session} {e : CommandError}
    (he : ¬ e.Caught) : (i.run yaml host).run.run s = (.error e, s') ↔
      s' = s ∧ i.command.loadsSettings = true ∧ ∃ error,
        s.disk.settings yaml host i.settings = .error error ∧ e = .settings error := by
  cases hload : i.command.loadsSettings with
  | false =>
    refine iff_of_false (fun h => he ?_) (by simp)
    exact failsWith_of_not_loading hload s e s' h
  | true =>
    obtain ⟨f, hf, hrest⟩ := exists_loading yaml host hload
    rw [hf, run_loading]
    cases hs : s.disk.settings yaml host i.settings with
    | ok settings =>
      refine iff_of_false (fun h => he ?_) (by simp)
      exact hrest settings s e s' h
    | error error =>
      dsimp only
      rw [Prod.mk.injEq]
      constructor
      · rintro ⟨h, rfl⟩
        cases h
        exact ⟨rfl, rfl, error, rfl, rfl⟩
      · rintro ⟨rfl, -, error, h, rfl⟩
        cases h
        exact ⟨rfl, rfl⟩

theorem outcomeOf_caught {e : CommandError} (h : e.Caught) (err : Text) :
    outcomeOf err (.error e) = ⟨.exit 1, "ERROR: ".toList ++ e.message ++ ['\n'], err⟩ :=
  if_pos (isContained_iff.mpr h)

theorem outcomeOf_uncaught {e : CommandError} (h : ¬ e.Caught) (err : Text) :
    outcomeOf err (.error e) = ⟨.escaped e, [], err⟩ :=
  if_neg (mt isContained_iff.mp h)

theorem runCommandLine_of_invoke {i : Invocation} (h : CommandLine.read arguments = .invoke i)
    (yaml : Yaml) (host : Host) (disk : Disk) : ∃ err,
      let ran := (i.run yaml host).run.run ⟨disk, none, []⟩
      runCommandLine yaml host disk arguments = (outcomeOf err ran.1, ran.2.disk) := by
  rw [runCommandLine, h]
  exact ⟨_, rfl⟩

/-- The command line asks for a command that loads the settings, and the settings file makes
the error escape. -/
def LoadsEscaping (yaml : Yaml) (host : Host) (disk : Disk) (arguments : List Text)
    (e : SettingsError) : Prop :=
  ∃ i content, CommandLine.read arguments = .invoke i ∧ i.command.loadsSettings = true ∧
    disk.Holds host.working (pathOr host.settingsPath i.settings) content ∧ Escapes yaml content e

/-- A command line whose settings file makes an error escape does nothing, and the error
escapes. -/
theorem escaped_of_loadsEscaping {e : SettingsError}
    (h : LoadsEscaping yaml host disk arguments e) : ∃ err,
      runCommandLine yaml host disk arguments = (⟨.escaped (.settings e), [], err⟩, disk) := by
  obtain ⟨i, content, hread, hload, hholds, hescapes⟩ := h
  obtain ⟨hsettings, hfamily⟩ := Disk.settings_eq_uncaught_iff.mpr ⟨content, hholds, hescapes⟩
  have huncaught : ¬ Caught (.settings e) := hfamily
  have hran : (i.run yaml host).run.run ⟨disk, none, []⟩ =
      (.error (.settings e), ⟨disk, none, []⟩) :=
    (Invocation.run_eq_uncaught_iff huncaught).mpr ⟨rfl, hload, e, hsettings, rfl⟩
  obtain ⟨err, hline⟩ := runCommandLine_of_invoke hread yaml host disk
  refine ⟨err, ?_⟩
  rw [hline, hran]
  exact congrArg (·, disk) (outcomeOf_uncaught huncaught err)

/-- Any other command line that makes sense succeeds, or reports a caught error. -/
theorem exits_of_not_loadsEscaping
    (haccepted : ∀ m misuse, CommandLine.read arguments ≠ .refuse m misuse)
    (h : ∀ e, ¬ LoadsEscaping yaml host disk arguments e) :
    let o := (runCommandLine yaml host disk arguments).1
    o.ending = .exit 0 ∨ o.ending = .exit 1 ∧
      ∃ e, Caught e ∧ o.out = "ERROR: ".toList ++ e.message ++ ['\n'] := by
  intro o
  cases hread : CommandLine.read arguments with
  | manual m =>
    have hline : runCommandLine yaml host disk arguments = (⟨.exit 0, m.text, []⟩, disk) := by
      rw [runCommandLine, hread]
    simp only [o, hline, true_or]
  | refuse m misuse => exact absurd hread (haccepted m misuse)
  | invoke i =>
    obtain ⟨err, hline⟩ := runCommandLine_of_invoke hread yaml host disk
    simp only [o, hline]
    rcases hran : (i.run yaml host).run.run ⟨disk, none, []⟩ with ⟨e | out, s⟩
    · have hcaught : e.Caught := by
        by_contra hc
        obtain ⟨-, hload, error, hsettings, rfl⟩ := (Invocation.run_eq_uncaught_iff hc).mp hran
        obtain ⟨content, hholds, hescapes⟩ :=
          Disk.settings_eq_uncaught_iff.mp ⟨hsettings, hc⟩
        exact h error ⟨i, content, hread, hload, hholds, hescapes⟩
      rw [outcomeOf_caught hcaught]
      exact .inr ⟨rfl, e, hcaught, rfl⟩
    · exact .inl rfl

/-- **A command line that makes sense contains every error but those of loading that are not
caught.** Whatever library reads the settings file, it exits with zero or one exactly if that
file makes no error escape: the library does not fail on it with an error that is not caught,
and finds no map whose filter cannot be one. Where it exits with one it has printed an error
that is caught. Where an error escapes, nothing has been printed or changed. -/
theorem errors_contained_iff
    (haccepted : ∀ m misuse, CommandLine.read arguments ≠ .refuse m misuse) (yaml : Yaml)
    (host : Host) (disk : Disk) :
    let ran := runCommandLine yaml host disk arguments
    ((ran.1.ending = .exit 0 ∨ ran.1.ending = .exit 1) ↔
      ∀ e, ¬ LoadsEscaping yaml host disk arguments e) ∧
    (ran.1.ending = .exit 1 →
      ∃ e, Caught e ∧ ran.1.out = "ERROR: ".toList ++ e.message ++ ['\n']) ∧
    ∀ e, LoadsEscaping yaml host disk arguments e →
      ran.1.ending = .escaped (.settings e) ∧ ran.1.out = [] ∧ ran.2 = disk := by
  intro ran
  have hescapes : ∀ e, LoadsEscaping yaml host disk arguments e →
      ran.1.ending = .escaped (.settings e) ∧ ran.1.out = [] ∧ ran.2 = disk := by
    intro e he
    obtain ⟨err, hran⟩ := escaped_of_loadsEscaping he
    simp only [ran, hran, and_self]
  have hnone : ran.1.ending = .exit 0 ∨ ran.1.ending = .exit 1 →
      ∀ e, ¬ LoadsEscaping yaml host disk arguments e := by
    intro hexit e he
    rw [(hescapes e he).1] at hexit
    simp at hexit
  refine ⟨⟨hnone, fun h => ?_⟩, fun hone => ?_, hescapes⟩
  · exact (exits_of_not_loadsEscaping haccepted h).imp_right And.left
  · rcases exits_of_not_loadsEscaping haccepted (hnone (.inr hone)) with hzero | ⟨-, hprinted⟩
    · rw [hone] at hzero
      cases hzero
    · exact hprinted

/-- A settings file in the folder `w` with a number as filter. -/
def numberedDisk : Disk :=
  .folder [("w".toList, .folder [("s.yaml".toList,
    .file (Utf8.encode "backup_dir: b\nextensions: 5\n".toList))])]

/-- Where the filter is a number, the command that would set it ends by the error that escapes,
while a summary, which needs no settings, reports that its file is missing. -/
theorem errors_contained_iff_number :
    (∀ m misuse, CommandLine.read (settingsArguments "s.yaml" "set-extensions" ".x") ≠
      .refuse m misuse) ∧
    (runCommandLine .simple workHost numberedDisk
      (settingsArguments "s.yaml" "set-extensions" ".x")).1.ending =
        .escaped (.settings (.noFilter "int".toList)) ∧
    (runCommandLine .simple workHost numberedDisk
      (settingsArguments "s.yaml" "set-extensions" ".x")).2 = numberedDisk ∧
    (let ran := runCommandLine .simple workHost numberedDisk
      ["--settings".toList, "s.yaml".toList, "inspect".toList, "a.cs".toList]
     ran.1.ending = .exit 0 ∨ ran.1.ending = .exit 1) := by
  have hset : CommandLine.read (settingsArguments "s.yaml" "set-extensions" ".x") =
      .invoke ⟨some "s.yaml".toList, false, .setExtensions ".x".toList⟩ := by decide +kernel
  have hinspect : CommandLine.read
      ["--settings".toList, "s.yaml".toList, "inspect".toList, "a.cs".toList] =
        .invoke ⟨some "s.yaml".toList, false, .inspect ⟨"a.cs".toList, none, false⟩⟩ := by
    decide +kernel
  have haccepted : ∀ m misuse,
      CommandLine.read (settingsArguments "s.yaml" "set-extensions" ".x") ≠ .refuse m misuse := by
    rw [hset]
    simp
  have htext : Utf8.decode (Utf8.encode "backup_dir: b\nextensions: 5\n".toList) =
      .ok "backup_dir: b\nextensions: 5\n".toList := Utf8.decode_encode _
  have hread : Value.read? (unifyBreaks "backup_dir: b\nextensions: 5\n".toList) =
      some (.map [(.text "backup_dir".toList, .text "b".toList),
        (.text "extensions".toList, .int 5)]) := by rfl
  have hload : Yaml.simple.load (unifyBreaks "backup_dir: b\nextensions: 5\n".toList) =
      .ok (.map [(.text "backup_dir".toList, .text "b".toList),
        (.text "extensions".toList, .int 5)]) := by
    simp only [Yaml.simple, hread]
  have hloads : LoadsEscaping .simple workHost numberedDisk
      (settingsArguments "s.yaml" "set-extensions" ".x") (.noFilter "int".toList) :=
    ⟨_, Utf8.encode "backup_dir: b\nextensions: 5\n".toList, hset, rfl,
      ⟨["w".toList, "s.yaml".toList], by decide +kernel, by decide +kernel⟩,
      .noFilter (v := .int 5) htext hload rfl rfl⟩
  obtain ⟨hescaped, -, hdisk⟩ :=
    (errors_contained_iff haccepted .simple workHost numberedDisk).2.2 _ hloads
  refine ⟨haccepted, hescaped, hdisk, ?_⟩
  refine (errors_contained_iff (by rw [hinspect]; simp) .simple workHost numberedDisk).1.mpr ?_
  rintro e ⟨i, content, hread, hload, -⟩
  rw [hinspect] at hread
  cases hread
  cases hload

end Endings
end Handout
