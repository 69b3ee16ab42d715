/-
# Refused runs

A run is refused for what it is asked, and for which folders are there: its folder is
missing, it has no target or the folder itself as target, or the backup folder lies inside
the folder (`Refuses`). All other errors happen on the way, to a file or to a path.

The checks stand between effects, but each before the first one that its error could
follow: the backup folder is looked at before an older snapshot is removed, and only then is
the folder remembered. So a refusal leaves the session as it was (`refuses_of_run`), and no
visit refuses anything (`visitFiles_failsWith`). A file with a defect in its content, of the
encoding or of the markup, ends the run with an error that names the file and keeps the defect
as its cause (`run_of_reaches`).

Key definitions: `RunError.isRefusal`, `Refuses`, `Run.FailsWith`, `Reaches`.
Key theorems: `refuses_of_run`, `run_of_refuses`, `run_of_reaches`,
`refusal_changes_nothing`.
-/
import Handout.Proofs.Previewing

namespace Handout

open Entry

variable {host : Host} {root : Path} {q : Request} {source : Location} {target : Option Location}

/-! ### Refusals -/

/-- Is a snapshot refused for where it is to be? -/
def SnapshotError.isRefusal : SnapshotError → Bool
  | .inside _ _ => true
  | .noHome | .file _ => false

/-- Is a run refused for what it is asked, and not stopped by what happens on the way? -/
def RunError.isRefusal : RunError → Bool
  | .missingFolder _ | .noTarget | .sameFolder => true
  | .snapshot e => e.isRefusal
  | .noHome | .file _ | .content _ _ => false

/-- The run that is asked for is refused in this session, with this error. -/
inductive Refuses (host : Host) (root : Path) (q : Request) (s : Session) : RunError → Prop
  | missingFolder {source : Location} (hf : folderOf host q.folder = .ok source)
      (hmissing : s.disk.look source ≠ some .folder) :
      Refuses host root q s (.missingFolder q.folder)
  | noTarget {source : Location} (hf : folderOf host q.folder = .ok source)
      (hfolder : s.disk.look source = some .folder)
      (hmode : q.options.mode.keepsMarkup = false) (hnone : q.target = none) :
      Refuses host root q s .noTarget
  | sameFolder {source : Location} {t : Text} (hf : folderOf host q.folder = .ok source)
      (hfolder : s.disk.look source = some .folder)
      (hmode : q.options.mode.keepsMarkup = false) (hsome : q.target = some t)
      (hsame : folderOf host t = .ok source) :
      Refuses host root q s .sameFolder
  | backupInside {source : Location} {target : Option Location}
      (hf : folderOf host q.folder = .ok source) (hfolder : s.disk.look source = some .folder)
      (ht : targetOf host q source = .ok target) (hdry : q.dryRun = false)
      (hfirst : s.last ≠ some source) (hinside : liesInside host root source = some true) :
      Refuses host root q s (.snapshot (.inside root.text source))

/-! ### How a stretch of a run can fail -/

namespace Run

variable {ε δ α β : Type} {P : ε → Prop}

/-- Whatever session a run begins with, it answers or fails as `P` says. -/
def FailsWith (P : ε → Prop) (x : Run ε α) : Prop :=
  ∀ s e s', x.run.run s = (.error e, s') → P e

theorem FailsWith.pure (a : α) : FailsWith P (Pure.pure a : Run ε α) := by
  intro s e s' h
  cases h

theorem FailsWith.disk : FailsWith P (Run.disk : Run ε Disk) := by
  intro s e s' h
  cases h

theorem FailsWith.tell (event : Event) : FailsWith P (Run.tell event : Run ε Unit) := by
  intro s e s' h
  cases h

theorem FailsWith.adapt_of {wrap : δ → ε} {Q : δ → Prop} (h : ∀ e, Q e → P (wrap e))
    {x : Run δ α} (hx : FailsWith Q x) : FailsWith P (x.adapt wrap) := by
  intro s e s' ha
  rw [run_adapt, Prod.mk.injEq] at ha
  rcases hr : x.run.run s with ⟨e' | a, s₁⟩
  · rw [hr] at ha
    cases ha.1
    exact h e' (hx s e' s₁ hr)
  · rw [hr] at ha
    cases ha.1

theorem FailsWith.adapt {wrap : δ → ε} (h : ∀ e, P (wrap e)) (x : Run δ α) :
    FailsWith P (x.adapt wrap) :=
  .adapt_of (fun e _ => h e) (Q := fun _ => True) fun _ _ _ _ => trivial

theorem FailsWith.ofExcept {wrap : δ → ε} (h : ∀ e, P (wrap e)) (x : Except δ α) :
    FailsWith P (Run.ofExcept wrap x) := by
  intro s e s' hx
  cases x with
  | error e' => cases hx; exact h e'
  | ok a => cases hx

theorem FailsWith.change {wrap : δ → ε} (h : ∀ e, P (wrap e)) (f : Disk → Except δ Disk) :
    FailsWith P (Run.change wrap f) := by
  intro s e s' hx
  rw [run_change] at hx
  split at hx
  · cases hx
  · cases hx
    exact h _

theorem FailsWith.act {wrap : δ → ε} (h : ∀ e, P (wrap e)) (f : Disk → Except δ Unit × Disk) :
    FailsWith P (Run.act wrap f) := by
  intro s e s' hx
  rw [run_act, Prod.mk.injEq] at hx
  cases hr : (f s.disk).1 with
  | error e' =>
    rw [hr] at hx
    cases hx.1
    exact h e'
  | ok a =>
    rw [hr] at hx
    cases hx.1

theorem FailsWith.bind {x : Run ε α} {f : α → Run ε β} (hx : FailsWith P x)
    (hf : ∀ a, FailsWith P (f a)) : FailsWith P (x >>= f) := by
  intro s e s' h
  rw [run_bind] at h
  split at h
  · rename_i a s₁ _
    exact hf a s₁ e s' h
  · rename_i e₁ s₁ hr
    cases h
    exact hx s e s' hr

end Run

/-- Nothing that happens to a file is a refusal. -/
theorem visitFile_failsWith (file : Location) :
    Run.FailsWith (fun e => e.isRefusal = false) (visitFile host q source target file) := by
  rw [visitFile_eq]
  refine .bind ?_ fun _ => .bind ?_ fun transformed => ?_
  · unfold startVisit clearOutput
    split_ifs
    · refine .bind .disk fun d => ?_
      split_ifs
      · exact .change (fun _ => by rfl) _
      · exact .pure _
    · exact .pure _
  · unfold renderVisit
    split_ifs
    · exact .adapt (fun _ => by rfl) _
    · exact .pure _
  · unfold endVisit copyFile
    split_ifs
    · exact .bind (.tell _) fun _ => .pure _
    · exact .bind (.bind (.act (fun _ => by rfl) _) fun _ => .bind .disk fun d =>
        .bind (.ofExcept (fun _ => by rfl) _) fun c => .change (fun _ => by rfl) _) fun _ => .pure _
    · exact .pure _
    · exact .pure _

/-- **No visit refuses anything.** -/
theorem visitFiles_failsWith : ∀ (files : List Location) (report : Report),
    Run.FailsWith (fun e => e.isRefusal = false) (visitFiles host q source target files report)
  | [], _ => .pure _
  | f :: rest, _ => by
    rw [visitFiles]
    exact .bind (visitFile_failsWith f) fun _ => visitFiles_failsWith rest _

/-! ### The checks before the walk -/

theorem folderOf_eq_error {t : Text} {e : RunError} (h : folderOf host t = .error e) :
    e = .noHome := by
  unfold folderOf at h
  split at h
  · cases h
    rfl
  · cases h

/-- A run that needs a target and has none was not given one, or it is the folder itself. -/
theorem targetOf_eq_error {e : RunError} (h : targetOf host q source = .error e)
    (he : e.isRefusal = true) : q.options.mode.keepsMarkup = false ∧
      ((e = .noTarget ∧ q.target = none) ∨
        (e = .sameFolder ∧ ∃ t, q.target = some t ∧ folderOf host t = .ok source)) := by
  unfold targetOf at h
  split_ifs at h with hmode
  refine ⟨by simpa using hmode, ?_⟩
  split at h
  · rename_i hnone
    cases h
    exact .inl ⟨rfl, hnone⟩
  · rename_i t hsome
    split at h
    · rename_i e' he'
      cases h
      rw [folderOf_eq_error he'] at he
      cases he
    · rename_i l hl
      split_ifs at h with hsame
      cases h
      exact .inr ⟨rfl, t, hsome, hsame ▸ hl⟩

theorem run_snapshot_inside (shown : Text) (h : liesInside host root source = some true)
    (s : Session) :
    (snapshot host source root shown).run.run s = (.error (.inside shown source), s) := by
  rw [snapshot, h]
  rfl

theorem fill_failsWith (host : Host) (source : Location) (root : Path) :
    Run.FailsWith (fun e => e.isRefusal = false) (fill host source root) :=
  .bind (.act (fun _ => by rfl) _) fun _ => .bind (.act (fun _ => by rfl) _) fun _ =>
    .bind (.tell _) fun _ => .pure _

/-- A snapshot that is refused has done nothing. -/
theorem snapshot_refused {shown : Text} {s s' : Session} {e : SnapshotError}
    (h : (snapshot host source root shown).run.run s = (.error e, s')) (he : e.isRefusal = true) :
    liesInside host root source = some true ∧ e = .inside shown source ∧ s' = s := by
  have hfill : ∀ s, (fill host source root).run.run s ≠ (.error e, s') := fun s hs => by
    rw [fill_failsWith _ _ _ _ _ _ hs] at he
    cases he
  match hinside : liesInside host root source with
  | none =>
    rw [snapshot, hinside] at h
    cases h
    cases he
  | some true =>
    rw [run_snapshot_inside shown hinside] at h
    cases h
    exact ⟨rfl, rfl, rfl⟩
  | some false =>
    rw [run_snapshot hinside] at h
    split_ifs at h
    · dsimp only at h
      split at h
      · exact absurd h (hfill _)
      · cases h
        cases he
    · exact absurd h (hfill _)

/-- A preparation that is refused has done nothing: the backup folder of a source that needs a
snapshot lies inside it. -/
theorem preparation_refused {s s' : Session} {e : RunError}
    (h : (preparation host root q source target).run.run s = (.error e, s'))
    (he : e.isRefusal = true) : q.dryRun = false ∧ s.last ≠ some source ∧
      liesInside host root source = some true ∧ e = .snapshot (.inside root.text source) ∧
        s' = s := by
  by_cases hdry : q.dryRun = true
  · rw [run_preparation_dry hdry] at h
    cases h
  · have hdry : q.dryRun = false := by simpa using hdry
    -- once the source is backed up only the folder of the target can fail
    have hmade : ∀ (made : Except FileError Unit) (place : Option Text),
        (made.mapError RunError.file).map (fun _ => place) ≠ .error e := by
      intro made place hmade
      cases made with
      | error e' => cases hmade; cases he
      | ok _ => cases hmade
    rw [run_preparation hdry] at h
    rcases backUp_cases host root source s with
      ⟨-, hb⟩ | ⟨hfirst, s₁, ⟨e', hsnap, hb⟩ | ⟨place, -, hb⟩⟩
    · rw [hb] at h
      cases target with
      | none => cases h
      | some t => exact absurd (Prod.mk.inj h).1 (hmade _ _)
    · rw [hb] at h
      cases h
      obtain ⟨hinside, rfl, rfl⟩ := snapshot_refused hsnap he
      exact ⟨hdry, hfirst, hinside, rfl, rfl⟩
    · rw [hb] at h
      cases target with
      | none => cases h
      | some t => exact absurd (Prod.mk.inj h).1 (hmade _ _)

/-- **A refusal comes first.** What refuses a run is there when the run begins, and the run
leaves the session as it was. -/
theorem refuses_of_run {s s' : Session} {e : RunError}
    (h : (transformFolder host root q).run.run s = (.error e, s')) (he : e.isRefusal = true) :
    Refuses host root q s e ∧ s' = s := by
  cases hf : folderOf host q.folder with
  | error e' =>
    rw [run_transformFolder_unnamed hf] at h
    cases h
    rw [folderOf_eq_error hf] at he
    cases he
  | ok source =>
    by_cases hfolder : s.disk.look source = some .folder
    · obtain ⟨entries, hentries⟩ := look_eq_folder_iff.mp hfolder
      cases ht : targetOf host q source with
      | error e' =>
        rw [run_transformFolder_untargeted hf hentries ht] at h
        cases h
        refine ⟨?_, rfl⟩
        obtain ⟨hmode, ⟨rfl, hnone⟩ | ⟨rfl, t, hsome, hsame⟩⟩ := targetOf_eq_error ht he
        · exact .noTarget hf hfolder hmode hnone
        · exact .sameFolder hf hfolder hmode hsome hsame
      | ok target =>
        rw [run_transformFolder hf hentries ht] at h
        rcases hp : (preparation host root q source target).run.run s with
          ⟨e' | backup, prepared⟩
        · rw [hp] at h
          cases h
          obtain ⟨hdry, hfirst, hinside, rfl, rfl⟩ := preparation_refused hp he
          exact ⟨.backupInside hf hfolder ht hdry hfirst hinside, rfl⟩
        · rw [hp] at h
          dsimp only at h
          split at h
          · rename_i e' s₁ hwalk
            cases h
            rw [visitFiles_failsWith _ _ _ _ _ hwalk] at he
            cases he
          · cases h
    · have hmissing : ∀ entries, s.disk.find? source ≠ some (.folder entries) :=
        fun entries he => hfolder (look_eq_folder_iff.mpr ⟨entries, he⟩)
      rw [run_transformFolder_missing hf hmissing] at h
      cases h
      exact ⟨.missingFolder hf hfolder, rfl⟩

/-- What is refused is refused with its error. -/
theorem run_of_refuses {s : Session} {e : RunError} (h : Refuses host root q s e) :
    e.isRefusal = true ∧ (transformFolder host root q).run.run s = (.error e, s) := by
  cases h with
  | missingFolder hf hmissing =>
    refine ⟨rfl, run_transformFolder_missing hf fun entries he => ?_⟩
    exact hmissing (look_eq_folder_iff.mpr ⟨entries, he⟩)
  | noTarget hf hfolder hmode hnone =>
    obtain ⟨entries, he⟩ := look_eq_folder_iff.mp hfolder
    refine ⟨rfl, run_transformFolder_untargeted hf he ?_⟩
    rw [targetOf, hmode, hnone]
    rfl
  | @sameFolder source t hf hfolder hmode hsome hsame =>
    obtain ⟨entries, he⟩ := look_eq_folder_iff.mp hfolder
    refine ⟨rfl, run_transformFolder_untargeted hf he ?_⟩
    simp [targetOf, hmode, hsome, hsame]
  | @backupInside source target hf hfolder ht hdry hfirst hinside =>
    obtain ⟨entries, he⟩ := look_eq_folder_iff.mp hfolder
    have hp : (preparation host root q source target).run.run s =
        (.error (.snapshot (.inside root.text source)), s) := by
      rw [run_preparation hdry, run_backUp_first hfirst, run_snapshot_inside _ hinside]
    refine ⟨rfl, ?_⟩
    rw [run_transformFolder hf he ht, hp]

/-! ### A file with a defect -/

/-- The session that a run has reached when it comes to read a file: it is prepared, the files
before have been visited, and the output of the file is cleared. -/
inductive Reaches (host : Host) (root : Path) (q : Request) (s : Session) (source f : Location)
    (reached : Session) : Prop
  | intro {entries : List (Text × Entry)} {target : Option Location} {backup : Option Text}
      {prepared walked : Session} {front rest : List Location} {report : Report}
      (hf : folderOf host q.folder = .ok source)
      (he : s.disk.find? source = some (.folder entries))
      (ht : targetOf host q source = .ok target)
      (hp : (preparation host root q source target).run.run s = (.ok backup, prepared))
      (hfiles : (Entry.folder entries).files = front ++ f :: rest)
      (hwalk : (visitFiles host q source target front ⟨[], [], [], backup, q.dryRun⟩).run.run
        prepared = (.ok report, walked))
      (hstart : (startVisit host q target (.ofLocation (target.getD source ++ f))).run.run
        walked = (.ok (), reached))

/-- The content of the file that a run has come to read has a defect, of the encoding or of
the markup. -/
def Defective (host : Host) (q : Request) (disk : Disk) (path : Path) (f : Location)
    (cause : ContentError) : Prop :=
  q.extensions.contains (suffixOf f.name) = true ∧ ∃ content,
    disk.readFile host.working path = .ok content ∧ renderBytes q.options content = .error cause

/-- **A defect ends the run as the failure of its file**, where it has come to. -/
theorem run_of_reaches {s reached : Session} {f : Location} {cause : ContentError}
    (h : Reaches host root q s source f reached)
    (hdefect : Defective host q reached.disk (.ofLocation (source ++ f)) f cause) :
    (transformFolder host root q).run.run s =
      (.error (.content (Path.ofLocation (source ++ f)).text cause), reached) := by
  obtain ⟨hf, he, ht, hp, hfiles, hwalk, hstart⟩ := h
  obtain ⟨hsuffix, content, hread, hcause⟩ := hdefect
  have hrendering : rendering host q reached.disk (.ofLocation (source ++ f)) f =
      .error cause := by
    rw [rendering, if_pos hsuffix, hread]
    exact hcause
  rw [run_transformFolder hf he ht, hp]
  dsimp only
  rw [hfiles, visitFiles_append, Run.run_bind, hwalk]
  dsimp only
  rw [visitFiles, Run.run_bind, visitFile_eq, Run.run_bind, hstart]
  dsimp only
  rw [Run.run_bind, run_renderVisit, hrendering]

/-! ### All exits -/

/-- **A refusal changes nothing.** A run fails with a refusal exactly if it is refused for what
it is asked and for which folders are there, and then the disk, the log and the folder that was
backed up last are as they were. The contents of the files have no part in it: a defect in the
content of a file that the run comes to is never a refusal, but ends the run with an error that
names the file and keeps the defect as its cause. -/
theorem refusal_changes_nothing (host : Host) (root : Path) (q : Request) (s : Session) :
    (∀ e s', (transformFolder host root q).run.run s = (.error e, s') → e.isRefusal = true →
      Refuses host root q s e ∧ s' = s) ∧
    (∀ e, Refuses host root q s e →
      e.isRefusal = true ∧ (transformFolder host root q).run.run s = (.error e, s)) ∧
    (∀ source f reached cause, Reaches host root q s source f reached →
      Defective host q reached.disk (.ofLocation (source ++ f)) f cause →
      ∃ e, e = .content (Path.ofLocation (source ++ f)).text cause ∧ e.isRefusal = false ∧
        (transformFolder host root q).run.run s = (.error e, reached)) :=
  ⟨fun _ _ h he => refuses_of_run h he, fun _ h => run_of_refuses h,
    fun _ _ _ _ h hdefect => ⟨_, rfl, rfl, run_of_reaches h hdefect⟩⟩

/-- With a backup folder inside the source the run is refused. With another one it rewrites the
first file and fails at the second, which has a marker that is not closed. -/
theorem refusal_changes_nothing_twoFiles :
    (transformFolder (.bare [] []) ⟨.working, ["w".toList, "src".toList, "bk".toList]⟩
        studentInPlace).run.run ⟨twoFiles, none, []⟩ =
      (.error (.snapshot (.inside "w/src/bk".toList ["w".toList, "src".toList])),
        ⟨twoFiles, none, []⟩) ∧
    ∃ e reached, (transformFolder (.bare [] []) ⟨.working, ["bk".toList]⟩
        studentInPlace).run.run ⟨twoFiles, none, []⟩ = (.error e, reached) ∧
      e = .content "/w/src/b.cs".toList (.format (.markerCounts 1 0)) ∧
      e.isRefusal = false := by
  obtain ⟨entries, he, hfiles⟩ : ∃ entries,
      twoFiles.find? ["w".toList, "src".toList] = some (.folder entries) ∧
        (Entry.folder entries).files = [["a.cs".toList]] ++ ["b.cs".toList] :: [] :=
    ⟨_, rfl, by decide +kernel⟩
  constructor
  · exact ((refusal_changes_nothing (.bare [] [])
      ⟨.working, ["w".toList, "src".toList, "bk".toList]⟩ studentInPlace
      ⟨twoFiles, none, []⟩).2.1 _ (.backupInside rfl (look_eq_folder_iff.mpr ⟨_, he⟩) rfl rfl
        (by simp) (by decide))).2
  · -- the sessions are kept opaque, or the run would be evaluated to state what is known of it
    obtain ⟨prepared, hp, hwalk, hread⟩ : ∃ prepared,
        (preparation (.bare [] []) ⟨.working, ["bk".toList]⟩ studentInPlace
          ["w".toList, "src".toList] none).run.run ⟨twoFiles, none, []⟩ =
            (.ok (some "bk/src".toList), prepared) ∧
        ((visitFiles (.bare [] []) studentInPlace ["w".toList, "src".toList] none
          [["a.cs".toList]] ⟨[], [], [], some "bk/src".toList, false⟩).run.run prepared).1 =
            .ok ⟨["/w/src/a.cs".toList], [], [], some "bk/src".toList, false⟩ ∧
        ((visitFiles (.bare [] []) studentInPlace ["w".toList, "src".toList] none
          [["a.cs".toList]] ⟨[], [], [], some "bk/src".toList, false⟩).run.run
            prepared).2.disk.readFile [] (.ofLocation ["w".toList, "src".toList, "b.cs".toList]) =
              .ok (Utf8.encode "//<snippet>".toList) :=
      ⟨_, Prod.ext (by decide +kernel) rfl, by decide +kernel, by decide +kernel⟩
    have hcause : renderBytes studentInPlace.options (Utf8.encode "//<snippet>".toList) =
      .error (.format (.markerCounts 1 0)) := by decide +kernel
    generalize hwalked : (visitFiles (.bare [] []) studentInPlace
      ["w".toList, "src".toList] none [["a.cs".toList]]
        ⟨[], [], [], some "bk/src".toList, false⟩).run.run prepared = out at hwalk hread
    obtain ⟨result, reached⟩ := out
    obtain rfl : result = _ := hwalk
    obtain ⟨e, he', hnot, hrun⟩ := (refusal_changes_nothing (.bare [] [])
      ⟨.working, ["bk".toList]⟩ studentInPlace ⟨twoFiles, none, []⟩).2.2 _ ["b.cs".toList] reached _
        (.intro rfl he rfl hp hfiles hwalked rfl) ⟨by decide, _, hread, hcause⟩
    exact ⟨e, reached, hrun, he', hnot⟩

end Handout
