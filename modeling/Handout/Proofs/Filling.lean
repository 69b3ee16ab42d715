/-
# What an extraction puts into its target

A visit that answers has cleared the output of its file before it rendered the file, so
what stands there afterwards is what the visit wrote: the rendering, a copy, or nothing
(`leftAt_visitFile`).

None of the files of a folder is above another one, and a target that is apart from the
source has its outputs apart from it. So no later visit reaches an output that an earlier
one has left, nor a file that is still to be read, and what holds after each visit holds
after the walk (`leftAt_visitFiles`). With the survey of the fates this tells all that a
run leaves at its outputs (`extraction_fills_target`).

The files are those that the source holds when the run begins. Their contents are compared
as the run leaves them: they are what they were before, unless the snapshot went into the
source, which it can if the backup folder is written with a leading `~`.

Key definitions: `LeftAt`, `Relevant`, `FillsTarget`.
Key theorems: `leftAt_visitFile`, `leftAt_visitFiles`, `rendering_isSome_iff`,
`extraction_fills_target`.
-/
import Handout.Proofs.Previewing

namespace Handout

open Entry

variable {host : Host} {root : Path} {q : Request} {source target : Location}

/-! ### The stages of a visit that answers -/

/-- A file that was written is there. -/
theorem Disk.look_writeFile {disk after : Disk} {working : Location} {p : Path} {c : Bytes}
    (hup : upName ∉ p.names) (h0 : p.names ≠ []) (h : disk.writeFile working p c = .ok after) :
    after.look (p.resolve working) = some (.file c) := by
  obtain ⟨-, hafter⟩ := writeFile_eq_ok h
  unfold writeFile at h
  split at h
  · cases h
  · rename_i l hl
    have habove := look_of_walk hup h0 (walk_of_locate hl)
    obtain ⟨front, n, hn⟩ := (List.eq_nil_or_concat' p.names).resolve_left h0
    rw [hn, List.dropLast_concat] at habove
    have hput := look_put_below (.file c) n [] disk habove
    rwa [hafter, Path.resolve_of_no_up hup, hn, ← List.append_assoc]

theorem look_startVisit {l : Location} (hdry : q.dryRun = false) (hl : l.Proper) (h0 : l ≠ [])
    {s s' : Session}
    (h : (startVisit host q (some target) (.ofLocation l)).run.run s = (.ok (), s')) :
    s'.disk.look l = none := by
  have hat : (Path.ofLocation l).resolve host.working = l :=
    Path.resolve_ofLocation hl.no_up host.working
  rw [startVisit, if_pos (by simp [hdry]), clearOutput] at h
  obtain ⟨d, s₁, hd, h⟩ := Run.bind_eq_ok h
  cases hd
  split_ifs at h with hentry
  · obtain ⟨disk, hremove, rfl⟩ := Run.change_eq_ok h
    obtain ⟨-, rfl⟩ := Disk.removeFile_eq_ok hremove
    have hnone := look_erase_below s.disk h0 []
    rw [List.append_nil] at hnone
    show (s.disk.erase _).look l = none
    rw [hat, hnone]
  · cases h
    rw [Disk.hasEntry, Disk.entry?_eq_find? hl.no_up, hat] at hentry
    exact look_eq_none_iff.mpr (by simpa using hentry)

theorem look_of_written {ε : Type} {wrap : FileError → ε} {l : Location} (hl : l.Proper)
    (h0 : l ≠ []) {c : Bytes} {s s' : Session}
    (h : (Run.change wrap (·.writeFile host.working (.ofLocation l) c)).run.run s =
      (.ok (), s')) :
    s'.disk.look l = some (.file c) := by
  obtain ⟨disk, hwrite, rfl⟩ := Run.change_eq_ok h
  have hfile := Disk.look_writeFile (p := .ofLocation l) hl.no_up h0 hwrite
  rwa [Path.resolve_ofLocation hl.no_up] at hfile

theorem look_writeOutput {l : Location} (hl : l.Proper) (h0 : l ≠ []) {new : Bytes}
    {s s' : Session} (h : (writeOutput host (.ofLocation l) new).run.run s = (.ok (), s')) :
    s'.disk.look l = some (.file new) := by
  rw [writeOutput] at h
  obtain ⟨_, s₁, -, hwrite⟩ := Run.bind_eq_ok h
  exact look_of_written hl h0 hwrite

theorem look_copyFile {l m : Location} (hm : m.Proper) (hl : l.Proper) (h0 : l ≠ [])
    {s s' : Session}
    (h : (copyFile host (.ofLocation m) (.ofLocation l)).run.run s = (.ok (), s')) :
    ∃ c, s.disk.look m = some (.file c) ∧ s'.disk.look l = some (.file c) := by
  rw [copyFile] at h
  obtain ⟨_, s₁, hmade, h⟩ := Run.bind_eq_ok h
  obtain ⟨d, s₂, hd, h⟩ := Run.bind_eq_ok h
  cases hd
  obtain ⟨c, s₃, hread, hwrite⟩ := Run.bind_eq_ok h
  rw [Run.run_ofExcept, Prod.mk.injEq, mapError_eq_ok_iff, readFile_ofLocation_iff hm.no_up]
    at hread
  obtain ⟨hc, rfl⟩ := hread
  rw [Run.run_act, Prod.mk.injEq] at hmade
  obtain ⟨-, rfl⟩ := hmade
  -- no folder that is made on the way is a file
  have hfile : s.disk.look m = some (.file c) := by
    rw [look_eq_file_iff] at hc ⊢
    exact (Disk.makeFolders_sameFiles s.disk host.working _ m c).mp hc
  exact ⟨c, hfile, look_of_written hl h0 hwrite⟩

/-- The second stage writes the rendering, or changes nothing. -/
theorem look_renderVisit (hdry : q.dryRun = false) {l m f : Location} (hm : m.Proper)
    (hl : l.Proper) (h0 : l ≠ []) {s s' : Session} {transformed : Bool}
    (h : (renderVisit host q (.ofLocation m) (.ofLocation l) f).run.run s =
      (.ok transformed, s')) :
    (transformed = false ∧ s' = s) ∨ (transformed = true ∧ ∃ c new,
      s.disk.look m = some (.file c) ∧ RendersTo q.options c new ∧
        s'.disk.look l = some (.file new)) := by
  rw [run_renderVisit] at h
  cases hr : rendering host q s.disk (.ofLocation m) f with
  | error e =>
    rw [hr] at h
    cases h
  | ok r =>
    rw [hr] at h
    have h := Run.adapt_eq_ok h
    cases r with
    | none =>
      cases h
      exact .inl ⟨rfl, rfl⟩
    | some new =>
      obtain ⟨c, hread, hnew⟩ : ∃ c, s.disk.readFile host.working (.ofLocation m) = .ok c ∧
          renderBytes q.options c = .ok (some new) := by
        rcases rendering_eq_ok hr with ⟨-, hc⟩ | ⟨-, hnone⟩
        · exact hc
        · cases hnone
      have hwrite : (writeOutput host (.ofLocation l) new >>= fun _ => pure true :
          Run ContentError Bool).run.run s = (.ok transformed, s') := by
        rwa [hdry] at h
      obtain ⟨_, s₁, hwrite, hdone⟩ := Run.bind_eq_ok hwrite
      cases hdone
      exact .inr ⟨rfl, c, new, (readFile_ofLocation_iff hm.no_up).mp hread,
        (renderBytes_eq_some hnew).2, look_writeOutput hl h0 hwrite⟩

/-- The last stage copies a file that was not rendered, or changes nothing. -/
theorem look_endVisit (hdry : q.dryRun = false) {l m : Location} (hm : m.Proper) (hl : l.Proper)
    (h0 : l ≠ []) {s s' : Session} {x : Fate} {transformed : Bool}
    (h : (endVisit host q (some target) (.ofLocation m) (.ofLocation l) transformed).run.run s =
      (.ok x, s')) :
    (transformed = true ∧ x = .transformed ∧ s'.disk = s.disk) ∨
      (transformed = false ∧ x = .skipped ∧ s'.disk = s.disk) ∨
      (transformed = false ∧ x = .copied ∧ ∃ c, s.disk.look m = some (.file c) ∧
        s'.disk.look l = some (.file c)) := by
  rw [endVisit_eq] at h
  obtain ⟨_, s₁, hsettle, h⟩ := Run.bind_eq_ok h
  cases h
  rw [settle, hdry] at hsettle
  unfold fateFor
  cases transformed with
  | true =>
    cases hsettle
    exact .inl ⟨rfl, rfl, rfl⟩
  | false =>
    cases honly : q.onlyTransformed with
    | true =>
      rw [honly] at hsettle
      cases hsettle
      exact .inr (.inl ⟨rfl, rfl, rfl⟩)
    | false =>
      rw [honly] at hsettle
      exact .inr (.inr ⟨rfl, rfl, look_copyFile hm hl h0 hsettle⟩)

/-! ### What a visit leaves at its output -/

/-- What a file of the source has come to in the target, by its fate. -/
def LeftAt (o : Options) (source target : Location) (disk : Disk) (f : Location) : Fate → Prop
  | .transformed => ∃ c new, disk.look (source ++ f) = some (.file c) ∧ RendersTo o c new ∧
      disk.look (target ++ f) = some (.file new)
  | .copied => ∃ c, disk.look (source ++ f) = some (.file c) ∧
      disk.look (target ++ f) = some (.file c)
  | .skipped => disk.look (target ++ f) = none

theorem LeftAt.of_look {o : Options} {before after : Disk} {f : Location} {x : Fate}
    (h : LeftAt o source target before f x) (hsource : ∀ c,
      before.look (source ++ f) = some (.file c) → after.look (source ++ f) = some (.file c))
    (hout : after.look (target ++ f) = before.look (target ++ f)) :
    LeftAt o source target after f x := by
  cases x with
  | transformed =>
    obtain ⟨c, new, hc, hnew, hl⟩ := h
    exact ⟨c, new, hsource c hc, hnew, hout.trans hl⟩
  | copied =>
    obtain ⟨c, hc, hl⟩ := h
    exact ⟨c, hsource c hc, hout.trans hl⟩
  | skipped => exact hout.trans h

/-- **A visit that answers** leaves at its output what the fate of its file says. -/
theorem leftAt_visitFile (hdry : q.dryRun = false) {f : Location} (h0 : f ≠ [])
    (hm : Location.Proper (source ++ f)) (hl : Location.Proper (target ++ f))
    (hne : source ++ f ≠ target ++ f) {s s' : Session} {x : Fate}
    (h : (visitFile host q source (some target) f).run.run s = (.ok x, s')) :
    LeftAt q.options source target s'.disk f x := by
  have hl0 : target ++ f ≠ [] := fun h => h0 (List.append_eq_nil_iff.mp h).2
  have hallowed : VisitAllowed (ChangesOutputs (· = target ++ f)) host q (some target)
      (.ofLocation (target ++ f)) := visitAllowed_changesOutputs hl.no_up (fun _ => by rfl) _
  have hvisit : ChangesOutputs (· = target ++ f) s.disk
      ((visitFile host q source (some target) f).run.run s).2.disk :=
    (visitFile_stays hallowed s).disk
  rw [h] at hvisit
  rw [visitFile_eq, Option.getD_some] at h
  obtain ⟨_, s₁, hstart, hrest⟩ := Run.bind_eq_ok h
  obtain ⟨transformed, s₂, hrender, hend⟩ := Run.bind_eq_ok hrest
  have hcleared := look_startVisit hdry hl hl0 hstart
  -- the file shows the same at every stage, since it is not the output
  have hkept := (startVisit_stays hallowed s).disk
  rw [hstart] at hkept
  have hfile : ∀ c, s₁.disk.look (source ++ f) = some (.file c) →
      s'.disk.look (source ++ f) = some (.file c) := fun c hc =>
    (hvisit.look_eq_file_iff hne c).mpr ((hkept.look_eq_file_iff hne c).mp hc)
  rcases look_renderVisit hdry hm hl hl0 hrender with
    ⟨rfl, rfl⟩ | ⟨rfl, c, new, hc, hnew, hout⟩
  · rcases look_endVisit hdry hm hl hl0 hend with
      ⟨ht, -⟩ | ⟨-, rfl, hsame⟩ | ⟨-, rfl, c, hc, hout⟩
    · cases ht
    · show s'.disk.look (target ++ f) = none
      rw [hsame, hcleared]
    · exact ⟨c, hfile c hc, hout⟩
  · rcases look_endVisit hdry hm hl hl0 hend with
      ⟨-, rfl, hsame⟩ | ⟨ht, -⟩ | ⟨ht, -⟩
    · exact ⟨c, new, hfile c hc, hnew, by rw [hsame, hout]⟩
    · cases ht
    · cases ht

/-! ### What a walk leaves at its outputs -/

/-- A file is not above another one. -/
theorem not_prefix_of_files {e : Entry} {f g : Location} {c c' : Bytes}
    (hf : e.look f = some (.file c)) (hg : e.look g = some (.file c')) (hne : f ≠ g) :
    ¬ f <+: g := by
  rintro ⟨r, rfl⟩
  have hr : r ≠ [] := fun h0 => hne (by rw [h0, List.append_nil])
  rw [look_below_of_not_folder hr (by simp [hf])] at hg
  cases hg

/-- None of the files of a folder is above another one. -/
theorem files_prefix_free (entries : List (Text × Entry)) :
    (Entry.folder entries).files.Pairwise fun f g => ¬ f <+: g := by
  refine (files_sorted _).imp_of_mem fun hf hg hlt => ?_
  obtain ⟨c, hc⟩ := mem_files_iff.mp hf
  obtain ⟨c', hc'⟩ := mem_files_iff.mp hg
  exact not_prefix_of_files hc hc' (ne_of_lt hlt)

/-- The files of a walk are not the outputs of any, if the target is apart from the source. -/
theorem not_outputOf (happart : TargetApart source (some target)) (files : List Location)
    (f : Location) : ¬ OutputOf target files (source ++ f) := by
  obtain ⟨h, h'⟩ := happart target rfl
  rintro ⟨g, -, hg⟩
  exact not_prefix_append h' h f ⟨g, hg.symm⟩

theorem visitFiles_changesOutputs (host : Host) (q : Request) (source : Location)
    {files : List Location} (hl : ∀ f ∈ files, Location.Proper (target ++ f)) (report : Report)
    (s : Session) :
    ChangesOutputs (OutputOf target files) s.disk
      ((visitFiles host q source (some target) files report).run.run s).2.disk :=
  (visitFiles_stays report (fun f hf => visitAllowed_changesOutputs (hl f hf).no_up
    (fun _ => ⟨f, hf, rfl⟩) _) s).disk

/-- **A walk that answers** leaves at each output what the fate of its file says. What a visit
has left is not changed by the later ones, whose outputs are not below its own. -/
theorem leftAt_visitFiles (hdry : q.dryRun = false) (happart : TargetApart source (some target)) :
    ∀ {files : List Location} {r report : Report} {s s' : Session},
      files.Pairwise (fun f g => ¬ f <+: g) →
      (∀ f ∈ files, f ≠ [] ∧ Location.Proper (source ++ f) ∧ Location.Proper (target ++ f)) →
      (visitFiles host q source (some target) files r).run.run s = (.ok report, s') →
      ∀ f ∈ files, ∃ x, fateOn host q source (some target) s'.disk f = .ok x ∧
        LeftAt q.options source target s'.disk f x
  | [], _, _, _, _, _, _, _ => by simp
  | f :: rest, r, report, s, s', hfree, hproper, h => by
    obtain ⟨hf, hrest⟩ := List.pairwise_cons.mp hfree
    obtain ⟨hf0, hm, hl⟩ := hproper f (List.mem_cons_self ..)
    have hproper' : ∀ g ∈ rest, g ≠ [] ∧ Location.Proper (source ++ g) ∧
      Location.Proper (target ++ g) := fun g hg => hproper g (List.mem_cons_of_mem _ hg)
    have hwalk := visitFiles_changesOutputs host q source
      (fun g hg => (hproper g hg).2.2) r s
    rw [h] at hwalk
    rw [visitFiles] at h
    obtain ⟨x, s₁, hvisit, hlater⟩ := Run.bind_eq_ok h
    have hchanges := visitFiles_changesOutputs host q source
      (fun g hg => (hproper' g hg).2.2) (r.add (Path.ofLocation (source ++ f)).text x) s₁
    rw [hlater] at hchanges
    rintro g hg
    rcases List.mem_cons.mp hg with rfl | hg
    · refine ⟨x, fateOn_of_look hm.no_up
        (fun c => (hwalk.look_eq_file_iff (not_outputOf happart _ g) c).mpr)
        (fateOn_of_visitFile hm.no_up hvisit), ?_⟩
      refine (leftAt_visitFile hdry hf0 hm hl (fun heq => ?_) hvisit).of_look
        (fun c => (hchanges.look_eq_file_iff (not_outputOf happart _ g) c).mpr)
        (hchanges.look_eq ?_)
      · exact not_outputOf happart [g] g ⟨g, List.mem_singleton_self g, heq⟩
      · rintro _ ⟨f, hmem, rfl⟩ hpre
        exact hf f hmem ((List.prefix_append_right_inj target).mp hpre)
    · exact leftAt_visitFiles hdry happart hrest hproper' hlater g hg

/-! ### Which files are rendered -/

/-- The content is a text that is read as a document with a snippet and, if solutions are
extracted, with one of the wanted task. -/
def Relevant (o : Options) (content : Bytes) : Prop :=
  ∃ t d, Utf8.decode content = .ok t ∧ Document.parse t = .ok d ∧ d.snippets ≠ [] ∧
    (o.mode = .solution → ∃ s ∈ d.snippets, belongs s.task o.cutoff = true)

theorem nothingToShow_eq_false_iff {o : Options} {d : Document} :
    NothingToShow o d = false ↔ d.snippets ≠ [] ∧
      (o.mode = .solution → ∃ s ∈ d.snippets, belongs s.task o.cutoff = true) := by
  simp [NothingToShow, Document.countFor, List.countP_eq_zero]

/-- Of the contents that can be rendered, the relevant ones are. -/
theorem renderBytes_isSome_iff {o : Options} {content : Bytes} {r : Option Bytes}
    (h : renderBytes o content = .ok r) : r.isSome = true ↔ Relevant o content := by
  obtain ⟨t, d, ht, hd, hr⟩ := renderBytes_eq_ok h
  have hrelevant : Relevant o content ↔ NothingToShow o d = false := by
    rw [nothingToShow_eq_false_iff]
    constructor
    · rintro ⟨t', d', ht', hd', hshow⟩
      obtain rfl : t = t' := by simpa [ht] using ht'
      obtain rfl : d = d' := by simpa [hd] using hd'
      exact hshow
    · exact fun hshow => ⟨t, d, ht, hd, hshow⟩
  rw [hrelevant]
  cases r with
  | none => simp [show NothingToShow o d = true from hr]
  | some new => simp [hr.1]

/-- A file is rendered if its suffix is wanted and its content is relevant. -/
theorem rendering_isSome_iff {disk : Disk} {l f : Location} {r : Option Bytes} (hup : upName ∉ l)
    (h : rendering host q disk (.ofLocation l) f = .ok r) :
    r.isSome = true ↔ q.extensions.contains (suffixOf f.name) = true ∧
      ∃ c, disk.look l = some (.file c) ∧ Relevant q.options c := by
  rcases rendering_eq_ok h with ⟨hsuffix, c, hread, hr⟩ | ⟨hsuffix, rfl⟩
  · have hlook := (readFile_ofLocation_iff hup).mp hread
    rw [renderBytes_isSome_iff hr, hsuffix, hlook]
    simp
  · rw [hsuffix]
    simp

theorem fateFor_eq_transformed_iff {target : Option Location} {b : Bool} :
    fateFor q target b = .transformed ↔ b = true := by
  cases b with
  | true => simp [fateFor]
  | false => cases h : target.isSome && !q.onlyTransformed <;> simp [fateFor, h]

theorem fateFor_eq_skipped {b : Bool} (h : fateFor q (some target) b = .skipped) :
    q.onlyTransformed = true := by
  unfold fateFor at h
  split_ifs at h with _ honly
  simpa using honly

theorem fateFor_ne_copied {target : Option Location} (honly : q.onlyTransformed = true)
    (b : Bool) : fateFor q target b ≠ .copied := by
  cases b <;> simp [fateFor, honly]

/-! ### The whole run -/

/-- A report on the files of a source, and what they have come to in the target. -/
structure FillsTarget (q : Request) (source target : Location) (files : List Location)
    (fate : Location → Fate) (report : Report) (after : Disk) : Prop where
  /-- Each file is listed under its fate, and nowhere else. -/
  listed : ∀ x, report.listed x =
    (files.filter fun f => fate f = x).map fun f => (Path.ofLocation (source ++ f)).text
  left : ∀ f ∈ files, LeftAt q.options source target after f (fate f)
  transformed_iff : ∀ f ∈ files, fate f = .transformed ↔
    q.extensions.contains (suffixOf f.name) = true ∧
      ∃ c, after.look (source ++ f) = some (.file c) ∧ Relevant q.options c
  skipped : report.skipped ≠ [] → q.onlyTransformed = true
  copied : q.onlyTransformed = true → report.copied = []

/-- A walk that answers over the files of a source has what it takes to fill the target. -/
theorem fillsTarget_of_visitFiles (hdry : q.dryRun = false)
    (happart : TargetApart source (some target)) {files : List Location}
    (hfree : files.Pairwise fun f g => ¬ f <+: g)
    (hproper : ∀ f ∈ files,
      f ≠ [] ∧ Location.Proper (source ++ f) ∧ Location.Proper (target ++ f))
    {backup : Option Text} {report : Report} {s s' : Session}
    (hsurvey : survey (fateOn host q source (some target) s.disk) source files
      ⟨[], [], [], backup, q.dryRun⟩ = .ok report)
    (h : (visitFiles host q source (some target) files ⟨[], [], [], backup, q.dryRun⟩).run.run s =
      (.ok report, s')) :
    ∃ fate, FillsTarget q source target files fate report s'.disk := by
  have hleft := leftAt_visitFiles hdry happart hfree hproper h
  have : Inhabited Fate := ⟨.skipped⟩
  choose! fate hfate hleft using hleft
  have hchanges := visitFiles_changesOutputs host q source
    (fun f hf => (hproper f hf).2.2) ⟨[], [], [], backup, q.dryRun⟩ s
  rw [h] at hchanges
  -- the disk that the walk leaves shows the files as the one it began with
  have hsurvey' : survey (fateOn host q source (some target) s'.disk) source files
      ⟨[], [], [], backup, q.dryRun⟩ = .ok report :=
    survey_of_fates (fun f hf x => fateOn_of_look (hproper f hf).2.1.no_up fun c =>
      (hchanges.look_eq_file_iff (not_outputOf happart files f) c).mpr) hsurvey
  have hlisted : ∀ x, report.listed x =
      (files.filter fun f => fate f = x).map fun f => (Path.ofLocation (source ++ f)).text := by
    intro x
    rw [(survey_eq_ok hsurvey').2, listed_empty, List.nil_append]
    congr 1
    exact List.filter_congr fun f hf => by simp [hfate f hf]
  have hfor : ∀ f ∈ files, ∃ b, fate f = fateFor q (some target) b := fun f hf => by
    obtain ⟨r, -, hr⟩ := fateOn_eq_ok (hfate f hf)
    exact ⟨r.isSome, hr⟩
  refine ⟨fate, hlisted, hleft, fun f hf => ?_, fun hskipped => ?_, fun honly => ?_⟩
  · obtain ⟨r, hr, hx⟩ := fateOn_eq_ok (hfate f hf)
    rw [hx, fateFor_eq_transformed_iff, rendering_isSome_iff (hproper f hf).2.1.no_up hr]
  · have hskipped : report.listed .skipped ≠ [] := hskipped
    rw [hlisted, ne_eq, List.map_eq_nil_iff, List.filter_eq_nil_iff] at hskipped
    push Not at hskipped
    obtain ⟨f, hf, hx⟩ := hskipped
    obtain ⟨b, hb⟩ := hfor f hf
    exact fateFor_eq_skipped (hb ▸ of_decide_eq_true hx)
  · show report.listed .copied = []
    rw [hlisted, List.map_eq_nil_iff, List.filter_eq_nil_iff]
    intro f hf hx
    obtain ⟨b, hb⟩ := hfor f hf
    exact fateFor_ne_copied honly b (hb ▸ of_decide_eq_true hx)

/-- **A successful extraction fills its target.** A run that is not dry and answers, with a
target apart from the source, lists each file that the source holds when it begins once,
in ascending order, under one of three fates. For a rendered file the target holds the
encoding of its rendering, for a copied one its content, and for a skipped one nothing.
Rendered are the files with a wanted suffix, a snippet and, if solutions are extracted, a
snippet of the wanted task; the others are copied, or skipped if only rendered files are
wanted. The contents are those that the run leaves in the source, and they are the ones that
it began with, if the snapshot is harmless. -/
theorem extraction_fills_target (host : Host) (root : Path) (q : Request)
    (source target : Location) (s s' : Session) (report : Report)
    (hworking : host.working.Proper) (hhome : host.ProperHomes) (hdisk : s.disk.Proper)
    (hdry : q.dryRun = false) (hf : folderOf host q.folder = .ok source)
    (ht : targetOf host q source = .ok (some target))
    (happart : ¬ source <+: target ∧ ¬ target <+: source)
    (h : (transformFolder host root q).run.run s = (.ok report, s')) :
    ∃ files, files.Pairwise (· < ·) ∧
      (∀ f, f ∈ files ↔ ∃ c, s.disk.look (source ++ f) = some (.file c)) ∧
      (∃ fate, FillsTarget q source target files fate report s'.disk) ∧
      (Harmless host root source s → KeepsBelow source s.disk s'.disk) := by
  have happart : TargetApart source (some target) := fun t ht => by
    cases ht
    exact happart
  have htarget := proper_of_targetOf hworking hhome ht
  by_cases hfind : ∃ entries, s.disk.find? source = some (.folder entries)
  · obtain ⟨entries, he⟩ := hfind
    have hproper : ∀ f ∈ (Entry.folder entries).files,
        f ≠ [] ∧ Location.Proper (source ++ f) ∧ Location.Proper (target ++ f) := fun f hf => by
      have hsource := hdisk.of_mem_files he hf
      exact ⟨ne_nil_of_mem_files hf, hsource, htarget.append hsource.of_append_right⟩
    obtain ⟨backup, prepared, hp, hsurvey⟩ := survey_of_transformFolder hdisk
      (fun t ht => by cases ht; exact htarget) happart hf he ht h
    obtain ⟨hanswer, hleaves⟩ := run_transformFolder_prepared hf he ht hp
    rw [h] at hanswer hleaves
    generalize hwalk : (visitFiles host q source (some target) (Entry.folder entries).files
      ⟨[], [], [], backup, q.dryRun⟩).run.run prepared = walked at hanswer hleaves
    obtain ⟨result, walked⟩ := walked
    obtain rfl : Except.ok report = result := hanswer
    obtain ⟨fate, hfills⟩ := fillsTarget_of_visitFiles hdry happart (files_prefix_free entries)
      hproper hsurvey hwalk
    have hchanges := visitFiles_changesOutputs host q source
      (fun f hf => (hproper f hf).2.2) ⟨[], [], [], backup, q.dryRun⟩ prepared
    rw [hwalk] at hchanges
    have hleaves : s'.disk = walked.disk := hleaves
    rw [hleaves]
    refine ⟨(Entry.folder entries).files, files_sorted _, fun f => mem_files_iff_below he,
      ⟨fate, hfills⟩, fun hharmless r c hr => ?_⟩
    have hprepared := keepsBelow_of_harmless (hdisk source (by simp [look, he])) hdry hharmless hp
    rw [← look_eq_file_iff] at hr ⊢
    rw [hchanges.look_eq_file_iff (not_outputOf happart _ r)]
    exact look_eq_file_iff.mpr (hprepared r c (look_eq_file_iff.mp hr))
  · rw [run_transformFolder_missing hf (not_exists.mp hfind)] at h
    cases h

/-- A folder `src` with files of two tasks and a text, and a target with an older file. -/
def twoTasks : Disk :=
  .folder [("src".toList, .folder [
      ("a.cs".toList, .file (Utf8.encode
        "//<snippet task=\"1\">\n//<solution>\nx\n//</solution>\n//</snippet>".toList)),
      ("b.cs".toList, .file (Utf8.encode
        "//<snippet task=\"2\">\n//<solution>\ny\n//</solution>\n//</snippet>".toList)),
      ("sub".toList, .folder [("c.txt".toList, .file [49])])]),
    ("out".toList, .folder [("b.cs".toList, .file [50])])]

/-- Asks for the solutions of the first task and for no other files. -/
def firstSolutions : Request :=
  ⟨"src".toList, some "out".toList, [".cs".toList], ⟨.solution, some (.one 1), false⟩, true,
    false⟩

/-- The file of the first task is rendered. The two others are skipped, and the older file is
gone. -/
theorem extraction_fills_target_twoTasks :
    ∃ report s' files fate, (transformFolder (.bare [] []) ⟨.working, ["bk".toList]⟩
        firstSolutions).run.run ⟨twoTasks, none, []⟩ = (.ok report, s') ∧
      report.transformed = ["/src/a.cs".toList] ∧
      report.skipped = ["/src/b.cs".toList, "/src/sub/c.txt".toList] ∧
      FillsTarget firstSolutions ["src".toList] ["out".toList] files fate report s'.disk ∧
      KeepsBelow ["src".toList] twoTasks s'.disk := by
  have hdisk : twoTasks.Proper := proper_of_contents (by unfold Location.Proper; decide +kernel)
  have hanswer : (match ((transformFolder (.bare [] []) ⟨.working, ["bk".toList]⟩
        firstSolutions).run.run ⟨twoTasks, none, []⟩).1 with
      | .ok report => decide (report.transformed = ["/src/a.cs".toList] ∧
          report.skipped = ["/src/b.cs".toList, "/src/sub/c.txt".toList])
      | .error _ => false) = true := by decide +kernel
  -- the session is kept opaque, or the run would be evaluated to state what is known of it
  obtain ⟨s, hs, hlook⟩ : ∃ s : Session, s = ⟨twoTasks, none, []⟩ ∧ s.disk = twoTasks :=
    ⟨_, rfl, rfl⟩
  rw [← hs] at hanswer ⊢
  rw [← hlook] at hdisk ⊢
  generalize hrun : (transformFolder (.bare [] []) ⟨.working, ["bk".toList]⟩
    firstSolutions).run.run s = out at hanswer ⊢
  rcases out with ⟨e | report, s'⟩
  · cases hanswer
  · obtain ⟨htransformed, hskipped⟩ := of_decide_eq_true hanswer
    obtain ⟨files, -, -, ⟨fate, hfills⟩, hkeeps⟩ := extraction_fills_target
      (.bare [] []) ⟨.working, ["bk".toList]⟩ firstSolutions ["src".toList]
      ["out".toList] s s' report (by simp [Host.bare, Location.Proper])
      (Host.bare_properHomes _ (by simp [Location.Proper])) hdisk rfl rfl rfl (by decide) hrun
    exact ⟨report, s', files, fate, rfl, htransformed, hskipped, hfills, hkeeps (.inr (.inr rfl))⟩

end Handout
