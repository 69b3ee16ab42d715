/-
# What a dry run foretells

A dry run lists the files, reads and renders them and changes nothing, so what it answers
is a survey of the disk (`run_visitFiles_dry`).

A run that is not dry gets to a file after it has written others. But what a visit adds or
changes stands at its output, and no later file is read there: in place each file is its
own output, and a target that is apart from the source has its outputs apart from it. So
the answer is a survey as well, of the disk that the preparation leaves
(`survey_of_visitFiles`), and the dry run foretells it if and only if the preparation
changes the fate of no file (`dryRun_previews_iff`).

It changes none if the snapshot spares the source, as it does whenever the backup folder is
written without a leading `~`. With one the refusal looks elsewhere, and the place of the
snapshot may lie inside the source: an older snapshot that is there is listed with the
files of the source, and replaced before it is read.

Key definitions: `fateOn`, `survey`, `AddsOnly`, `Previews`, `KeepsFates`.
Key theorems: `run_visitFiles_dry`, `survey_of_visitFiles`, `transformFolder_dry`,
`sparesSource_of_snapshot`, `dryRun_previews_iff`.
-/
import Handout.Proofs.Extraction
import Handout.Proofs.InPlace
import Handout.Proofs.Trimming

namespace Handout

open Entry

/-! ### Paths and their texts -/

/-- No name of anything that is there has a slash, so that a text tells which file is
meant. -/
def Disk.Slashless (disk : Disk) : Prop :=
  ∀ p, Entry.look disk p ≠ none → ∀ n ∈ p, '/' ∉ n

theorem text_ofLocation_injective {a b : Location} (ha : a ≠ []) (hb : b ≠ [])
    (hna : ∀ n ∈ a, '/' ∉ n) (hnb : ∀ n ∈ b, '/' ∉ n)
    (h : (Path.ofLocation a).text = (Path.ofLocation b).text) : a = b := by
  have h : '/' :: Text.joinWith ['/'] a = '/' :: Text.joinWith ['/'] b := h
  rw [List.cons.injEq] at h
  rw [← Text.splitAt_joinWith ha hna, h.2, Text.splitAt_joinWith hb hnb]

/-- The files of a folder are told apart by their texts. -/
theorem text_injective_of_slashless {disk : Disk} {source : Location}
    {entries : List (Text × Entry)} (h : disk.Slashless)
    (he : disk.find? source = some (.folder entries)) :
    ∀ f ∈ (Entry.folder entries).files, ∀ g ∈ (Entry.folder entries).files,
      (Path.ofLocation (source ++ f)).text = (Path.ofLocation (source ++ g)).text → f = g := by
  have hlisted : ∀ f ∈ (Entry.folder entries).files,
      source ++ f ≠ [] ∧ ∀ n ∈ source ++ f, '/' ∉ n := by
    intro f hf
    obtain ⟨c, hc⟩ := (mem_files_iff_below he).mp hf
    refine ⟨fun h0 => ?_, h _ (by simp [hc])⟩
    exact ne_nil_of_mem_files hf (List.append_eq_nil_iff.mp h0).2
  intro f hf g hg htext
  obtain ⟨hf0, hfn⟩ := hlisted f hf
  obtain ⟨hg0, hgn⟩ := hlisted g hg
  exact List.append_cancel_left (text_ofLocation_injective hf0 hg0 hfn hgn htext)

variable {host : Host} {root : Path} {q : Request} {source : Location} {target : Option Location}

/-! ### The fate of a file -/

/-- What the file at a path is rendered to, if its suffix is wanted and it has a snippet that
matters. -/
def rendering (host : Host) (q : Request) (disk : Disk) (path : Path) (file : Location) :
    Except ContentError (Option Bytes) :=
  if q.extensions.contains (suffixOf file.name) then do
    let content ← (disk.readFile host.working path).mapError .file
    renderBytes q.options content
  else return none

/-- What becomes of a file that was rendered, or was not. -/
def fateFor (q : Request) (target : Option Location) (transformed : Bool) : Fate :=
  if transformed then .transformed
  else if target.isSome && !q.onlyTransformed then .copied
  else .skipped

/-- What becomes of a file of the source that is read from a disk. -/
def fateOn (host : Host) (q : Request) (source : Location) (target : Option Location)
    (disk : Disk) (file : Location) : Except ContentError Fate :=
  (rendering host q disk (.ofLocation (source ++ file)) file).map fun new =>
    fateFor q target new.isSome

theorem rendering_eq_ok {disk : Disk} {path : Path} {f : Location} {r : Option Bytes}
    (h : rendering host q disk path f = .ok r) :
    (q.extensions.contains (suffixOf f.name) = true ∧ ∃ c,
      disk.readFile host.working path = .ok c ∧ renderBytes q.options c = .ok r) ∨
    (q.extensions.contains (suffixOf f.name) = false ∧ r = none) := by
  unfold rendering at h
  split_ifs at h with hsuffix
  · obtain ⟨c, hc, hr⟩ := bind_eq_ok_iff.mp h
    exact .inl ⟨hsuffix, c, mapError_eq_ok_iff.mp hc, hr⟩
  · cases h
    exact .inr ⟨by simpa using hsuffix, rfl⟩

theorem fateOn_eq_ok {disk : Disk} {f : Location} {x : Fate}
    (h : fateOn host q source target disk f = .ok x) :
    ∃ r, rendering host q disk (.ofLocation (source ++ f)) f = .ok r ∧
      x = fateFor q target r.isSome := by
  unfold fateOn at h
  cases hr : rendering host q disk (.ofLocation (source ++ f)) f with
  | error e =>
    rw [hr] at h
    cases h
  | ok r =>
    rw [hr] at h
    cases h
    exact ⟨r, rfl, rfl⟩

/-- A file is read where it is shown, and nowhere else. -/
theorem readFile_ofLocation_iff {disk : Disk} {working l : Location} {c : Bytes}
    (hup : upName ∉ l) :
    disk.readFile working (.ofLocation l) = .ok c ↔ disk.look l = some (.file c) := by
  have hat : (Path.ofLocation l).resolve working = l := Path.resolve_ofLocation hup working
  constructor
  · intro h
    unfold Disk.readFile at h
    split at h
    · cases h
    · rename_i p hp
      have hp : p = l := (Disk.locate_eq_resolve hp).trans hat
      rw [hp] at h
      rw [look_eq_file_iff]
      split at h
      · cases h
      · cases h
      · rename_i content hc
        cases h
        exact hc
  · intro h
    refine Disk.readFile_of_look hup ?_
    rw [hat]
    exact h

/-- Disks with the same file at a location agree on its fate there. -/
theorem fateOn_congr {disk disk' : Disk} {f : Location} {c : Bytes}
    (hup : upName ∉ source ++ f) (h : disk.look (source ++ f) = some (.file c))
    (h' : disk'.look (source ++ f) = some (.file c)) :
    fateOn host q source target disk f = fateOn host q source target disk' f := by
  unfold fateOn rendering
  rw [(readFile_ofLocation_iff hup).mpr h, (readFile_ofLocation_iff hup).mpr h']

/-- A file has its fate also on a disk that shows it where the first one does. -/
theorem fateOn_of_look {disk disk' : Disk} {f : Location} {x : Fate}
    (hup : upName ∉ source ++ f) (h : ∀ c, disk.look (source ++ f) = some (.file c) →
      disk'.look (source ++ f) = some (.file c))
    (hx : fateOn host q source target disk f = .ok x) :
    fateOn host q source target disk' f = .ok x := by
  obtain ⟨r, hr, rfl⟩ := fateOn_eq_ok hx
  have hr' : rendering host q disk' (.ofLocation (source ++ f)) f = .ok r := by
    unfold rendering
    rcases rendering_eq_ok hr with ⟨hsuffix, c, hread, hc⟩ | ⟨hsuffix, rfl⟩
    · rw [readFile_ofLocation_iff hup] at hread
      rw [if_pos hsuffix, (readFile_ofLocation_iff hup).mpr (h c hread)]
      exact hc
    · rw [hsuffix]
      rfl
  rw [fateOn, hr']
  rfl

/-! ### The survey of a disk -/

/-- The report on files whose fates are known, or the first failure. -/
def survey (fate : Location → Except ContentError Fate) (source : Location) :
    List Location → Report → Except RunError Report
  | [], report => .ok report
  | f :: rest, report =>
    match fate f with
    | .error e => .error (.content (Path.ofLocation (source ++ f)).text e)
    | .ok x => survey fate source rest (report.add (Path.ofLocation (source ++ f)).text x)

/-- The files that a report gives a fate. -/
def Report.listed (r : Report) : Fate → List Text
  | .transformed => r.transformed
  | .copied => r.copied
  | .skipped => r.skipped

theorem listed_add (r : Report) (t : Text) (x y : Fate) :
    (r.add t x).listed y = r.listed y ++ if x = y then [t] else [] := by
  cases x <;> cases y <;> simp [Report.add, Report.listed]

/-- An empty report lists no file. -/
theorem listed_empty (backup : Option Text) (dryRun : Bool) (x : Fate) :
    Report.listed ⟨[], [], [], backup, dryRun⟩ x = [] := by
  cases x <;> rfl

theorem survey_of_fates {fate fate' : Location → Except ContentError Fate} :
    ∀ {files : List Location} {r report : Report},
      (∀ f ∈ files, ∀ x, fate f = .ok x → fate' f = .ok x) →
      survey fate source files r = .ok report → survey fate' source files r = .ok report
  | [], _, _, _, h => h
  | f :: rest, r, report, hf, h => by
    rw [survey] at h ⊢
    cases hx : fate f with
    | error e => rw [hx] at h; cases h
    | ok x =>
      rw [hx] at h
      rw [hf f (List.mem_cons_self ..) x hx]
      exact survey_of_fates (fun g hg => hf g (List.mem_cons_of_mem _ hg)) h

/-- A survey that answers lists each file under its fate. -/
theorem survey_eq_ok {fate : Location → Except ContentError Fate} :
    ∀ {files : List Location} {r report : Report}, survey fate source files r = .ok report →
      (∀ f ∈ files, ∃ x, fate f = .ok x) ∧ ∀ y, report.listed y = r.listed y ++
        (files.filter fun f => fate f = .ok y).map fun f => (Path.ofLocation (source ++ f)).text
  | [], r, report, h => by
    rw [survey, Except.ok.injEq] at h
    simp [h]
  | f :: rest, r, report, h => by
    rw [survey] at h
    cases hx : fate f with
    | error e => rw [hx] at h; cases h
    | ok x =>
      rw [hx] at h
      obtain ⟨hrest, hlisted⟩ := survey_eq_ok h
      refine ⟨fun g hg => ?_, fun y => ?_⟩
      · rcases List.mem_cons.mp hg with rfl | hg
        · exact ⟨x, hx⟩
        · exact hrest g hg
      · rw [hlisted, listed_add, List.filter_cons, hx, List.append_assoc]
        by_cases hxy : x = y
        · simp [hxy]
        · simp [hxy]

/-- If every file has a fate, the survey answers. -/
theorem exists_survey {fate : Location → Except ContentError Fate} (source : Location) :
    ∀ {files : List Location} (r : Report), (∀ f ∈ files, ∃ x, fate f = .ok x) →
      ∃ report, survey fate source files r = .ok report
  | [], r, _ => ⟨r, rfl⟩
  | f :: rest, r, h => by
    obtain ⟨x, hx⟩ := h f (List.mem_cons_self ..)
    rw [survey, hx]
    exact exists_survey source _ fun g hg => h g (List.mem_cons_of_mem _ hg)

/-! ### A dry visit -/

/-- The second stage of a visit reads the disk once and then writes what it rendered. -/
theorem run_renderVisit (path output : Path) (f : Location) (s : Session) :
    (renderVisit host q path output f).run.run s = match rendering host q s.disk path f with
      | .error e => (.error (.content path.text e), s)
      | .ok new => ((writeRendered host q.dryRun output new).adapt
          (RunError.content path.text)).run.run s := by
  unfold renderVisit rendering
  split_ifs
  · rw [Run.run_adapt, transformFile_eq, Run.run_bind, Run.run_disk]
    simp only
    rw [Run.run_bind, Run.run_ofExcept]
    cases s.disk.readFile host.working path with
    | error e => rfl
    | ok content =>
      simp only [Except.mapError]
      rw [Run.run_bind, Run.run_ofExcept]
      simp only [bind, Except.bind]
      cases renderBytes q.options content with
      | error e => rfl
      | ok new => rfl
  · rfl

theorem writeRendered_dry (output : Path) (new : Option Bytes) :
    writeRendered host true output new = pure new.isSome := by
  cases new <;> rfl

/-- Tells that a file was rendered, or copies it if that is wanted. -/
def settle (host : Host) (q : Request) (target : Option Location) (path output : Path)
    (transformed : Bool) : Run RunError Unit :=
  if transformed then Run.tell (.transformed path.text)
  else if target.isSome && !q.onlyTransformed && !q.dryRun then copyFile host path output
  else pure ()

/-- The last stage of a visit ends with the fate of its file. -/
theorem endVisit_eq (path output : Path) (transformed : Bool) :
    endVisit host q target path output transformed =
      settle host q target path output transformed >>= fun _ =>
        pure (fateFor q target transformed) := by
  unfold endVisit settle fateFor
  cases transformed <;> cases target.isSome <;> cases q.onlyTransformed <;> cases q.dryRun <;> rfl

theorem run_endVisit_dry (hdry : q.dryRun = true) (path output : Path) (transformed : Bool)
    (s : Session) : ∃ told, (endVisit host q target path output transformed).run.run s =
      (.ok (fateFor q target transformed), { s with log := s.log ++ told }) := by
  rw [endVisit_eq, settle, hdry, Bool.not_true, Bool.and_false]
  cases transformed with
  | true => exact ⟨[.transformed path.text], rfl⟩
  | false => exact ⟨[], by rw [List.append_nil]; rfl⟩

/-- **A dry visit** tells the fate of its file on the disk and leaves the disk alone. -/
theorem run_visitFile_dry (host : Host) (source : Location) (target : Option Location)
    (hdry : q.dryRun = true) (f : Location) (s : Session) :
    ∃ told, (visitFile host q source target f).run.run s =
      ((fateOn host q source target s.disk f).mapError
        (.content (Path.ofLocation (source ++ f)).text), { s with log := s.log ++ told }) := by
  have hstart : startVisit host q target (.ofLocation (target.getD source ++ f)) = pure () :=
    if_neg (by simp [hdry])
  rw [visitFile_eq, hstart, Run.run_bind, Run.run_pure]
  simp only
  rw [Run.run_bind, run_renderVisit, fateOn, hdry]
  cases rendering host q s.disk (.ofLocation (source ++ f)) f with
  | error e => exact ⟨[], by rw [List.append_nil]; rfl⟩
  | ok new =>
    simp only [writeRendered_dry]
    exact run_endVisit_dry hdry _ _ new.isSome s

/-- **A dry walk is a survey of the disk**, and leaves the disk alone. -/
theorem run_visitFiles_dry (host : Host) (source : Location) (target : Option Location)
    (hdry : q.dryRun = true) : ∀ (files : List Location) (report : Report) (s : Session), ∃ told,
      (visitFiles host q source target files report).run.run s =
        (survey (fateOn host q source target s.disk) source files report,
          { s with log := s.log ++ told })
  | [], report, s => ⟨[], by rw [List.append_nil]; rfl⟩
  | f :: rest, report, s => by
    obtain ⟨told, hf⟩ := run_visitFile_dry host source target hdry f s
    rw [visitFiles, Run.run_bind, hf, survey]
    cases fateOn host q source target s.disk f with
    | error e => exact ⟨told, rfl⟩
    | ok x =>
      obtain ⟨told', hrest⟩ := run_visitFiles_dry host source target hdry rest
        (report.add (Path.ofLocation (source ++ f)).text x) { s with log := s.log ++ told }
      exact ⟨told ++ told', by simpa [Except.mapError, List.append_assoc] using hrest⟩

/-! ### What a visit adds -/

/-- The files of the second disk that are not at an output are files of the first one. -/
def AddsOnly (outputs : Location → Prop) (before after : Disk) : Prop :=
  ∀ p c, ¬ outputs p → after.look p = some (.file c) → before.look p = some (.file c)

instance {outputs : Location → Prop} : IsPreorder Disk (AddsOnly outputs) where
  refl _ _ _ _ h := h
  trans _ _ _ h h' p c hp hc := h p c hp (h' p c hp hc)

theorem addsOnly_removeFile {d d' : Disk} {working : Location} {p : Path}
    (outputs : Location → Prop) (h : d.removeFile working p = .ok d') :
    AddsOnly outputs d d' := by
  obtain ⟨-, rfl⟩ := Disk.removeFile_eq_ok h
  intro x c _ hx
  rcases look_erase_cases d (p.resolve working) x with hsame | hnone
  · rwa [hsame] at hx
  · rw [hnone] at hx
    cases hx

/-- **A visit adds no more than a file at its output.** -/
theorem visitAllowed_addsOnly {l : Location} (hup : upName ∉ l) (target : Option Location) :
    VisitAllowed (AddsOnly (· = l)) host q target (.ofLocation l) :=
  (visitAllowed_changesOutputs hup (fun _ => by rfl) target).mono
    fun _ _ h _ c hp => (h.look_eq_file_iff hp c).mp

/-- Clearing an output adds nothing. -/
theorem startVisit_addsOnly (host : Host) (q : Request) (target : Option Location)
    (outputs : Location → Prop) (output : Path) :
    Run.Stays (AddsOnly outputs) (startVisit host q target output) := by
  unfold startVisit clearOutput
  split_ifs
  · refine .bind .disk fun d => ?_
    split_ifs
    · exact .change (D := AddsOnly outputs) (fun _ _ h => addsOnly_removeFile outputs h) _
    · exact .pure _
  · exact .pure _

/-! ### A visit that answers -/

theorem writeRendered_eq_ok {dryRun : Bool} {output : Path} {new : Option Bytes}
    {s s' : Session} {transformed : Bool}
    (h : (writeRendered host dryRun output new).run.run s = (.ok transformed, s')) :
    transformed = new.isSome := by
  cases new with
  | none => cases h; rfl
  | some new =>
    have h : ((if !dryRun then writeOutput host output new else pure ()) >>= fun _ =>
        pure true : Run ContentError Bool).run.run s = (.ok transformed, s') := by
      rw [← h, writeRendered]
      split_ifs <;> rfl
    obtain ⟨_, s₁, -, h⟩ := Run.bind_eq_ok h
    cases h
    rfl

theorem endVisit_eq_ok {path output : Path} {s s' : Session} {transformed : Bool} {x : Fate}
    (h : (endVisit host q target path output transformed).run.run s = (.ok x, s')) :
    x = fateFor q target transformed := by
  rw [endVisit_eq] at h
  obtain ⟨_, s₁, -, h⟩ := Run.bind_eq_ok h
  cases h
  rfl

/-- **A visit that answers** tells the fate that its file has on the disk with which the
visit begins. -/
theorem fateOn_of_visitFile {f : Location} (hup : upName ∉ source ++ f) {s s' : Session} {x : Fate}
    (h : (visitFile host q source target f).run.run s = (.ok x, s')) :
    fateOn host q source target s.disk f = .ok x := by
  have hadds := startVisit_addsOnly host q target (fun _ => False)
    (.ofLocation (target.getD source ++ f)) s
  rw [visitFile_eq] at h
  obtain ⟨_, s₁, hstart, h⟩ := Run.bind_eq_ok h
  obtain ⟨transformed, s₂, hrender, hend⟩ := Run.bind_eq_ok h
  rw [hstart] at hadds
  refine fateOn_of_look hup (fun c hc => hadds.disk _ c (fun hf => hf) hc) ?_
  rw [run_renderVisit] at hrender
  cases hr : rendering host q s₁.disk (.ofLocation (source ++ f)) f with
  | error e =>
    rw [hr] at hrender
    cases hrender
  | ok new =>
    rw [hr] at hrender
    rw [fateOn, hr, endVisit_eq_ok hend, writeRendered_eq_ok (Run.adapt_eq_ok hrender)]
    rfl

/-- **A walk that answers is a survey of the disk with which it begins**, if no output stands
where a later file is read. -/
theorem survey_of_visitFiles : ∀ {files : List Location} {r report : Report} {s s' : Session},
    files.Pairwise (fun f g => source ++ g ≠ target.getD source ++ f) →
    (∀ f ∈ files, upName ∉ source ++ f ∧ upName ∉ target.getD source ++ f) →
    (visitFiles host q source target files r).run.run s = (.ok report, s') →
    survey (fateOn host q source target s.disk) source files r = .ok report
  | [], _, _, _, _, _, _, h => by
    cases h
    rfl
  | f :: rest, r, report, s, s', hapart, hup, h => by
    obtain ⟨hf, hrest⟩ := List.pairwise_cons.mp hapart
    obtain ⟨hupf, hupout⟩ := hup f (List.mem_cons_self ..)
    have hadds : Within (AddsOnly (· = target.getD source ++ f)) s
        ((visitFile host q source target f).run.run s).2 :=
      visitFile_stays (visitAllowed_addsOnly hupout target) s
    rw [visitFiles] at h
    obtain ⟨x, s₁, hvisit, h⟩ := Run.bind_eq_ok h
    rw [hvisit] at hadds
    rw [survey, fateOn_of_visitFile hupf hvisit]
    have hup' : ∀ g ∈ rest, upName ∉ source ++ g ∧ upName ∉ target.getD source ++ g :=
      fun g hg => hup g (List.mem_cons_of_mem _ hg)
    exact survey_of_fates (fun g hg _ => fateOn_of_look (hup' g hg).1
      fun c hc => hadds.disk _ c (hf g hg) hc) (survey_of_visitFiles hrest hup' h)

/-! ### The whole run -/

variable {s : Session} {entries : List (Text × Entry)}

/-- A dry run answers as the survey of the disk does. -/
theorem transformFolder_dry (root : Path) (hdry : q.dryRun = true)
    (hf : folderOf host q.folder = .ok source) (he : s.disk.find? source = some (.folder entries))
    (ht : targetOf host q source = .ok target) :
    ((transformFolder host root q).run.run s).1 =
      survey (fateOn host q source target s.disk) source (Entry.folder entries).files
        ⟨[], [], [], none, true⟩ := by
  have hp : (preparation host root q source target).run.run s = (.ok none, s) :=
    run_preparation_dry hdry s
  obtain ⟨told, hwalk⟩ := run_visitFiles_dry host source target hdry (Entry.folder entries).files
    ⟨[], [], [], none, q.dryRun⟩ s
  rw [(run_transformFolder_prepared hf he ht hp).1, hwalk, hdry]

/-- **A dry run changes nothing**, whether it answers or fails. -/
theorem afterRun_dry (host : Host) (root : Path) (hdry : q.dryRun = true) (s : Session) :
    (afterRun host root q s).disk = s.disk ∧ (afterRun host root q s).last = s.last := by
  rcases transformFolder_cases host root q s with ⟨e, he⟩ | ⟨source, entries, target, hf, he, ht⟩
  · rw [afterRun, he]
    exact ⟨rfl, rfl⟩
  · have hp : (preparation host root q source target).run.run s = (.ok none, s) :=
      run_preparation_dry hdry s
    have hwet : q.dryRun ≠ false := by simp [hdry]
    have hwithin := within_of_passes (D := Eq) hf he ht hp
      (fun f _ => ⟨fun h => absurd h hwet, fun h => absurd h hwet, fun h => absurd h hwet⟩) .ended
    exact ⟨hwithin.disk.symm, hwithin.last⟩

/-- The source lies neither in the target nor around it. -/
def TargetApart (source : Location) (target : Option Location) : Prop :=
  ∀ t, target = some t → ¬ source <+: t ∧ ¬ t <+: source

/-- No output stands where a later file is read. -/
theorem outputs_apart (happart : TargetApart source target) {files : List Location}
    (hfiles : files.Pairwise (· < ·)) :
    files.Pairwise (fun f g => source ++ g ≠ target.getD source ++ f) := by
  refine hfiles.imp fun {f g} hlt heq => ?_
  cases target with
  | none =>
    rw [Option.getD_none, List.append_cancel_left_eq] at heq
    exact absurd hlt (heq ▸ lt_irrefl f)
  | some t =>
    obtain ⟨h, h'⟩ := happart t rfl
    exact not_prefix_append h' h g ⟨f, heq.symm⟩

/-- A run that answers is a survey of the disk that the preparation leaves. -/
theorem survey_of_transformFolder (hdisk : s.disk.Proper)
    (htarget : ∀ t, target = some t → t.Proper) (happart : TargetApart source target)
    (hf : folderOf host q.folder = .ok source)
    (he : s.disk.find? source = some (.folder entries)) (ht : targetOf host q source = .ok target)
    {report : Report} {s' : Session}
    (h : (transformFolder host root q).run.run s = (.ok report, s')) :
    ∃ backup prepared, (preparation host root q source target).run.run s = (.ok backup, prepared) ∧
      survey (fateOn host q source target prepared.disk) source (Entry.folder entries).files
        ⟨[], [], [], backup, q.dryRun⟩ = .ok report := by
  cases hp : (preparation host root q source target).run.run s with
  | mk result prepared =>
    cases result with
    | error e =>
      rw [run_transformFolder hf he ht, hp] at h
      cases h
    | ok backup =>
      have hanswer := (run_transformFolder_prepared hf he ht hp).1
      rw [h] at hanswer
      refine ⟨backup, prepared, rfl, ?_⟩
      generalize hwalk : (visitFiles host q source target (Entry.folder entries).files
        ⟨[], [], [], backup, q.dryRun⟩).run.run prepared = walked at hanswer
      rcases walked with ⟨result, s''⟩
      cases hanswer
      refine survey_of_visitFiles (outputs_apart happart (files_sorted _)) (fun f hmem => ?_) hwalk
      have hsource := hdisk.of_mem_files he hmem
      refine ⟨hsource.no_up, ?_⟩
      cases target with
      | none => exact hsource.no_up
      | some t => exact ((htarget t rfl).append hsource.of_append_right).no_up

/-! ### When a snapshot spares its source -/

/-- A snapshot that answers spares its source, if the backup folder is written without a
leading `~`. -/
theorem sparesSource_of_snapshot {shown : Text} {s' : Session} {place : Path}
    (hs : source.Proper) (htilde : root.expandHome host.homeOf = some root)
    (h : (snapshot host source root shown).run.run s = (.ok place, s')) :
    SparesSource host s.disk source root := by
  intro removed hremoved r c _ hpre
  obtain ⟨hroot, name, hname⟩ := removedPlace_eq hs htilde hremoved
  obtain ⟨-, hlocated⟩ := removedPlace_eq_some hremoved
  -- the source is there when it is copied, and at the removed place there is nothing
  obtain ⟨-, -, hcopy, -⟩ := snapshot_eq_ok h
  obtain ⟨here, found, there, hhere, hfound, hthere, hnone, -⟩ := Disk.copyTree_eq_ok hcopy
  have hhere : here = source := (Disk.locate_eq_resolve hhere).trans
    (Path.resolve_ofLocation (fun hm => (hs _ hm).2 rfl) host.working)
  have hplace : there = removed :=
    (Disk.locate_eq_resolve hthere).trans (Disk.locate_eq_resolve hlocated).symm
  have hnot : ¬ removed <+: source := hplace ▸ hhere ▸ not_prefix_of_free hnone hfound
  rcases List.prefix_or_prefix_of_prefix hpre (List.prefix_append source r) with hp | hp
  · exact hnot hp
  · rw [hname] at hp hnot
    rcases List.prefix_concat_iff.mp hp with heq | hp
    · exact hnot (heq ▸ List.prefix_refl _)
    · exact hroot hp

/-- The source needs no snapshot, or its snapshot spares it, or the backup folder is written
without a leading `~`. -/
def Harmless (host : Host) (root : Path) (source : Location) (s : Session) : Prop :=
  s.last = some source ∨ SparesSource host s.disk source root ∨
    root.expandHome host.homeOf = some root

/-- A harmless preparation that answers keeps the files of the source. -/
theorem keepsBelow_of_harmless (hs : source.Proper) (hdry : q.dryRun = false)
    (hharmless : Harmless host root source s) {backup : Option Text} {prepared : Session}
    (hp : (preparation host root q source target).run.run s = (.ok backup, prepared)) :
    KeepsBelow source s.disk prepared.disk := by
  have hspares : s.last ≠ some source → SparesSource host s.disk source root := by
    intro hlast
    rcases hharmless with h | h | htilde
    · exact absurd h hlast
    · exact h
    · rw [run_preparation hdry] at hp
      rcases backUp_cases host root source s with
        ⟨h, -⟩ | ⟨-, s', ⟨e, -, hb⟩ | ⟨place, hsnap, -⟩⟩
      · exact absurd h hlast
      · rw [hb] at hp
        cases hp
      · exact sparesSource_of_snapshot hs htilde hsnap
  have hkeep : KeepsBelow source s.disk
      ((preparation host root q source target).run.run s).2.disk :=
    keepsBelow_preparation target fun _ => hspares
  rwa [hp] at hkeep

/-! ### The condition -/

/-- The dry run answers with the lists of a report. -/
def Foretells (host : Host) (root : Path) (q : Request) (s : Session) (report : Report) : Prop :=
  ∃ preview s', (transformFolder host root { q with dryRun := true }).run.run s =
      (.ok preview, s') ∧
    preview.transformed = report.transformed ∧ preview.copied = report.copied ∧
      preview.skipped = report.skipped

/-- If the run that is not dry answers, the dry run answers with the same lists. -/
def Previews (host : Host) (root : Path) (q : Request) (s : Session) : Prop :=
  ∀ report s', (transformFolder host root { q with dryRun := false }).run.run s =
    (.ok report, s') → Foretells host root q s report

/-- The disk that the preparation leaves of a run that is not dry. -/
def preparedDisk (host : Host) (root : Path) (q : Request) (source : Location)
    (target : Option Location) (s : Session) : Disk :=
  ((preparation host root { q with dryRun := false } source target).run.run s).2.disk

/-- Every file of the source has the fate that it had before the preparation. -/
def KeepsFates (host : Host) (root : Path) (q : Request) (source : Location)
    (target : Option Location) (s : Session) : Prop :=
  ∀ f c, s.disk.look (source ++ f) = some (.file c) →
    fateOn host q source target (preparedDisk host root q source target s) f =
      fateOn host q source target s.disk f

/-- Reports on the same files have the same lists if and only if the fates are the same. -/
theorem listed_eq_iff {fate fate' : Location → Except ContentError Fate} {files : List Location}
    (hinjective : ∀ f ∈ files, ∀ g ∈ files,
      (Path.ofLocation (source ++ f)).text = (Path.ofLocation (source ++ g)).text → f = g)
    {backup backup' : Option Text} {dryRun dryRun' : Bool} {r r' : Report}
    (h : survey fate source files ⟨[], [], [], backup, dryRun⟩ = .ok r)
    (h' : survey fate' source files ⟨[], [], [], backup', dryRun'⟩ = .ok r') :
    (∀ x, r'.listed x = r.listed x) ↔ ∀ f ∈ files, fate f = fate' f := by
  obtain ⟨hfates, hlisted⟩ := survey_eq_ok h
  obtain ⟨-, hlisted'⟩ := survey_eq_ok h'
  simp only [listed_empty, List.nil_append] at hlisted hlisted'
  constructor
  · intro hsame f hf
    obtain ⟨x, hx⟩ := hfates f hf
    have hmem : (Path.ofLocation (source ++ f)).text ∈ r'.listed x := by
      rw [hsame, hlisted]
      exact List.mem_map_of_mem (List.mem_filter.mpr ⟨hf, decide_eq_true hx⟩)
    rw [hlisted'] at hmem
    obtain ⟨g, hg, htext⟩ := List.mem_map.mp hmem
    obtain ⟨hg, hgx⟩ := List.mem_filter.mp hg
    obtain rfl := hinjective g hg f hf htext
    rw [hx, of_decide_eq_true hgx]
  · intro hsame x
    rw [hlisted, hlisted']
    congr 1
    exact List.filter_congr fun f hf => by rw [hsame f hf]

/-- What the dry run foretells of a run that answers. -/
theorem foretells_iff (root : Path) (hdisk : s.disk.Proper) (hnames : s.disk.Slashless)
    (htarget : ∀ t, target = some t → t.Proper) (hf : folderOf host q.folder = .ok source)
    (he : s.disk.find? source = some (.folder entries)) (ht : targetOf host q source = .ok target)
    (happart : TargetApart source target) {report : Report} {s' : Session}
    (h : (transformFolder host root { q with dryRun := false }).run.run s = (.ok report, s')) :
    Foretells host root q s report ↔ KeepsFates host root q source target s := by
  obtain ⟨backup, prepared, hp, hwet⟩ := survey_of_transformFolder
    (q := { q with dryRun := false }) hdisk htarget happart hf he ht h
  have hdry := transformFolder_dry root (q := { q with dryRun := true }) rfl hf he ht
  have hprepared : preparedDisk host root q source target s = prepared.disk := by
    rw [preparedDisk, hp]
  have hinjective := text_injective_of_slashless hnames he
  have hkeeps : KeepsFates host root q source target s ↔ ∀ f ∈ (Entry.folder entries).files,
      fateOn host q source target prepared.disk f = fateOn host q source target s.disk f := by
    rw [KeepsFates, hprepared]
    simp only [mem_files_iff_below he, forall_exists_index]
  rw [hkeeps]
  constructor
  · rintro ⟨preview, s'', hanswer, ht, hc, hs⟩
    rw [hanswer] at hdry
    refine (listed_eq_iff hinjective hwet hdry.symm).mp fun x => ?_
    cases x with
    | transformed => exact ht
    | copied => exact hc
    | skipped => exact hs
  · intro hsame
    obtain ⟨preview, hpreview⟩ := exists_survey source ⟨[], [], [], none, true⟩
      fun f hmem => hsame f hmem ▸ (survey_eq_ok hwet).1 f hmem
    have hlists := (listed_eq_iff hinjective hwet hpreview).mpr hsame
    exact ⟨preview, _, Prod.ext (hdry.trans hpreview) rfl, hlists .transformed, hlists .copied,
      hlists .skipped⟩

/-- **When a dry run previews.** A dry run changes neither the disk nor which folder was
backed up last, whether it answers or fails. In place, or with a target apart from the
source, it foretells the lists of a run that answers if and only if the preparation changes
the fate of no file. It does foretell them if the source needs no snapshot, if the snapshot
spares the source, and if the backup folder is written without a leading `~`. -/
theorem dryRun_previews_iff (host : Host) (root : Path) (q : Request) (s : Session)
    (hworking : host.working.Proper) (hhome : host.ProperHomes) (hdisk : s.disk.Proper)
    (hnames : s.disk.Slashless) :
    ((afterRun host root { q with dryRun := true } s).disk = s.disk ∧
      (afterRun host root { q with dryRun := true } s).last = s.last) ∧
    ∀ source target, folderOf host q.folder = .ok source → targetOf host q source = .ok target →
      TargetApart source target →
      (Previews host root q s ↔
        ((∃ report s', (transformFolder host root { q with dryRun := false }).run.run s =
          (.ok report, s')) → KeepsFates host root q source target s)) ∧
      (Harmless host root source s → Previews host root q s) := by
  refine ⟨afterRun_dry host root rfl s, fun source target hf ht happart => ?_⟩
  have htarget : ∀ t, target = some t → t.Proper := fun t h =>
    proper_of_targetOf hworking hhome (h ▸ ht)
  by_cases hfind : ∃ entries, s.disk.find? source = some (.folder entries)
  · obtain ⟨entries, he⟩ := hfind
    have hs : source.Proper := hdisk source (by simp [look, he])
    refine ⟨⟨?_, fun h report s' hrun => ?_⟩, fun hharmless report s' hrun => ?_⟩
    · rintro h ⟨report, s', hrun⟩
      exact (foretells_iff root hdisk hnames htarget hf he ht happart hrun).mp (h report s' hrun)
    · exact (foretells_iff root hdisk hnames htarget hf he ht happart hrun).mpr
        (h ⟨report, s', hrun⟩)
    · obtain ⟨backup, prepared, hp, -⟩ := survey_of_transformFolder
        (q := { q with dryRun := false }) hdisk htarget happart hf he ht hrun
      have hkeep := keepsBelow_of_harmless hs rfl hharmless hp
      refine (foretells_iff root hdisk hnames htarget hf he ht happart hrun).mpr fun f c hc => ?_
      rw [preparedDisk, hp]
      exact fateOn_congr (hdisk _ (by simp [hc]) : (source ++ f).Proper).no_up
        (look_eq_file_iff.mpr (hkeep f c (look_eq_file_iff.mp hc))) hc
  · have hmissing : ∀ report s', (transformFolder host root { q with dryRun := false }).run.run s ≠
        (.ok report, s') := fun report s' h => by
      rw [run_transformFolder_missing (q := { q with dryRun := false }) hf
        (not_exists.mp hfind)] at h
      cases h
    have hpreviews : Previews host root q s := fun report s' h => absurd h (hmissing report s')
    refine ⟨⟨?_, fun _ => hpreviews⟩, fun _ => hpreviews⟩
    rintro - ⟨report, s', h⟩
    exact absurd h (hmissing report s')

/-- A folder `~/bk` with a file that has a snippet, and an older snapshot of it inside. -/
def olderSnapshot : Disk :=
  .folder [("~".toList, .folder [("bk".toList, .folder [
    ("a.cs".toList,
      .file (Utf8.encode "//<snippet>\n//<solution>\nx\n//</solution>\n//</snippet>".toList)),
    ("bk".toList, .folder [("a.cs".toList, .file (Utf8.encode "plain".toList))])])])]

/-- Asks for the student text of that folder in place. -/
def studentOfBackup : Request :=
  ⟨"/~/bk".toList, none, [".cs".toList], ⟨.fullStudent, none, false⟩, false, false⟩

/-- The folder is its own backup folder, as it is written; with the `~` replaced it is another
one. So the older snapshot is replaced by a copy before its file is read, and this file, which
the dry run skips, is rendered. -/
theorem dryRun_previews_iff_olderSnapshot :
    fateOn (.bare [] ["home".toList]) studentOfBackup ["~".toList, "bk".toList] none
        olderSnapshot ["bk".toList, "a.cs".toList] = .ok .skipped ∧
      fateOn (.bare [] ["home".toList]) studentOfBackup ["~".toList, "bk".toList] none
        (preparedDisk (.bare [] ["home".toList]) ⟨.working, ["~".toList, "bk".toList]⟩
          studentOfBackup ["~".toList, "bk".toList] none ⟨olderSnapshot, none, []⟩)
        ["bk".toList, "a.cs".toList] = .ok .transformed ∧
      ¬ Previews (.bare [] ["home".toList]) ⟨.working, ["~".toList, "bk".toList]⟩
        studentOfBackup ⟨olderSnapshot, none, []⟩ := by
  have hdisk : olderSnapshot.Proper :=
    proper_of_contents (by unfold Location.Proper; decide +kernel)
  have hnames : olderSnapshot.Slashless := names_of_contents (by decide +kernel)
  have hbefore : fateOn (.bare [] ["home".toList]) studentOfBackup
      ["~".toList, "bk".toList] none olderSnapshot ["bk".toList, "a.cs".toList] =
        .ok .skipped := by decide +kernel
  have hprepared : fateOn (.bare [] ["home".toList]) studentOfBackup
      ["~".toList, "bk".toList] none (preparedDisk (.bare [] ["home".toList])
        ⟨.working, ["~".toList, "bk".toList]⟩ studentOfBackup ["~".toList, "bk".toList] none
          ⟨olderSnapshot, none, []⟩) ["bk".toList, "a.cs".toList] = .ok .transformed := by
    decide +kernel
  have hanswers : ((transformFolder (.bare [] ["home".toList])
      ⟨.working, ["~".toList, "bk".toList]⟩ { studentOfBackup with dryRun := false }).run.run
        ⟨olderSnapshot, none, []⟩).1.isOk = true := by decide +kernel
  refine ⟨hbefore, hprepared, ?_⟩
  -- the session is kept opaque, or the run would be evaluated to state what is known of it
  obtain ⟨s, hs, hlook⟩ : ∃ s : Session, s = ⟨olderSnapshot, none, []⟩ ∧ s.disk = olderSnapshot :=
    ⟨_, rfl, rfl⟩
  rw [← hs] at hanswers hprepared ⊢
  rw [← hlook] at hdisk hnames hbefore
  have h := (dryRun_previews_iff (.bare [] ["home".toList])
    ⟨.working, ["~".toList, "bk".toList]⟩ studentOfBackup s (by simp [Host.bare, Location.Proper])
    (Host.bare_properHomes _ (by unfold Location.Proper; decide)) hdisk hnames).2
    ["~".toList, "bk".toList] none rfl rfl (fun _ h => nomatch h)
  generalize hrun : (transformFolder (.bare [] ["home".toList])
    ⟨.working, ["~".toList, "bk".toList]⟩ { studentOfBackup with dryRun := false }).run.run s =
      out at hanswers
  rcases out with ⟨e | report, s'⟩
  · cases hanswers
  · intro hpreviews
    have hkeeps := h.1.mp hpreviews ⟨report, s', hrun⟩ ["bk".toList, "a.cs".toList]
      (Utf8.encode "plain".toList) (by rw [hlook]; decide +kernel)
    rw [hprepared, hbefore] at hkeeps
    cases hkeeps

end Handout
