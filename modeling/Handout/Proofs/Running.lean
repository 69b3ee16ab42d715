/-
# Runs over a folder, stage by stage

A run over a folder is refused, or it is prepared and then visits the files one after
another (`transformFolder_cases`, `run_transformFolder`). The preparation backs the
folder up and makes the target; a visit clears the output, renders the file, and then
copies or skips it if it was not rendered (`visitFile_eq`).

A relation between disks that every operation of a visit keeps is kept by the whole
walk, wherever it stops (`visitFiles_stays`). What the operations do is said once: a visit
changes its output and makes folders on the way to it (`visitAllowed_changesOutputs`), and
frame properties are proved from that. The log of a walk tells of no snapshot, and the
walk does not change which folder was backed up last.

Key definitions: `Event.ofSnapshot`, `Within`, `Run.Stays`, `Disk.Proper`, `VisitAllowed`,
`ChangesOutputs`, `backUp`, `preparation`, `Passes`.
Key theorems: `visitFile_eq`, `visitFiles_stays`, `visitAllowed_changesOutputs`, `run_preparation`,
`run_transformFolder`, `transformFolder_cases`, `within_of_passes`.
-/
import Handout.Folder.Transform
import Handout.Proofs.Looking
import Handout.Proofs.Snapshot
import Mathlib.Order.Defs.Unbundled

namespace Handout

/-! ### What a stretch of a run may change -/

/-- Does a line of a log tell of a snapshot? -/
def Event.ofSnapshot : Event → Bool
  | .removingSnapshot _ | .backedUp _ _ => true
  | .transformed _ | .finished .. => false

/-- Between the two sessions the disk changed as `D` allows, no snapshot was told of, and
the same folder was backed up last. -/
structure Within (D : Disk → Disk → Prop) (s s' : Session) : Prop where
  disk : D s.disk s'.disk
  last : s'.last = s.last
  told : ∃ told, s'.log = s.log ++ told ∧ ∀ e ∈ told, e.ofSnapshot = false

namespace Within

variable {D : Disk → Disk → Prop} [IsPreorder Disk D] {a b c : Session}

theorem refl (s : Session) : Within D s s :=
  ⟨refl_of D s.disk, rfl, [], by simp, by simp⟩

theorem trans (h : Within D a b) (h' : Within D b c) : Within D a c := by
  obtain ⟨told, ht, hn⟩ := h.told
  obtain ⟨told', ht', hn'⟩ := h'.told
  refine ⟨trans_of D h.disk h'.disk, h'.last.trans h.last, told ++ told', ?_, fun e he => ?_⟩
  · rw [ht', ht, List.append_assoc]
  · exact (List.mem_append.mp he).elim (hn e) (hn' e)

/-- A line that tells of no snapshot is added to the log. -/
theorem tell {e : Event} (he : e.ofSnapshot = false) (s : Session) :
    Within D s { s with log := s.log ++ [e] } :=
  ⟨refl_of D s.disk, rfl, [e], rfl, by simpa using he⟩

end Within

namespace Run

variable {D : Disk → Disk → Prop} {ε δ α β : Type}

/-- Whatever session a run begins with, the change to the one that it leaves is allowed. -/
def Stays (D : Disk → Disk → Prop) (x : Run ε α) : Prop :=
  ∀ s, Within D s (x.run.run s).2

theorem Stays.adapt {x : Run δ α} (hx : Stays D x) (wrap : δ → ε) : Stays D (x.adapt wrap) :=
  fun s => hx s

theorem Stays.act {f : Disk → Except δ Unit × Disk} (h : ∀ d, D d (f d).2) (wrap : δ → ε) :
    Stays D (Run.act wrap f) := by
  intro s
  rw [run_act]
  exact ⟨h _, rfl, [], by simp, by simp⟩

variable [IsPreorder Disk D]

theorem Stays.pure (a : α) : Stays D (Pure.pure a : Run ε α) := fun s => .refl s

theorem Stays.ofExcept (wrap : δ → ε) (x : Except δ α) : Stays D (Run.ofExcept wrap x) := by
  intro s
  rw [run_ofExcept]
  exact .refl s

theorem Stays.disk : Stays D (Run.disk : Run ε Disk) := fun s => .refl s

theorem Stays.tell {e : Event} (he : e.ofSnapshot = false) :
    Stays D (Run.tell e : Run ε Unit) := fun s => .tell he s

theorem Stays.bind {x : Run ε α} {f : α → Run ε β} (hx : Stays D x) (hf : ∀ a, Stays D (f a)) :
    Stays D (x >>= f) := by
  intro s
  have h := hx s
  rw [run_bind]
  split
  · rename_i a s' hr
    rw [hr] at h
    exact h.trans (hf a s')
  · rename_i e s' hr
    rwa [hr] at h

theorem Stays.change {f : Disk → Except δ Disk} (h : ∀ d d', f d = .ok d' → D d d')
    (wrap : δ → ε) : Stays D (Run.change wrap f) := by
  intro s
  rw [run_change]
  split
  · rename_i d hd
    exact ⟨h _ _ hd, rfl, [], by simp, by simp⟩
  · exact .refl s

end Run

/-- The names of everything that is there are names that a path can follow. -/
def Disk.Proper (disk : Disk) : Prop :=
  ∀ p, Entry.look disk p ≠ none → Location.Proper p

/-- What holds of the names that are there holds of the names on the way to what is there. -/
theorem names_of_contents {disk : Disk} {P : Text → Prop}
    (h : ∀ x ∈ Entry.contents disk, ∀ n ∈ x.1, P n) :
    ∀ p, Entry.look disk p ≠ none → ∀ n ∈ p, P n := by
  intro p hp
  cases p with
  | nil => simp
  | cons n r =>
    obtain ⟨x, hx⟩ := Option.ne_none_iff_exists'.mp (mt Entry.look_eq_none_iff.mpr hp)
    exact h _ (Entry.mem_contents hx)

/-- It is enough to look at the names that are there. -/
theorem proper_of_contents {disk : Disk}
    (h : ∀ x ∈ Entry.contents disk, Location.Proper x.1) : disk.Proper :=
  names_of_contents h

theorem Location.Proper.no_up {l : Location} (h : l.Proper) : upName ∉ l :=
  fun hm => (h _ hm).2 rfl

theorem Location.Proper.nil_not_mem {l : Location} (h : l.Proper) : [] ∉ l :=
  fun hm => (h _ hm).1 rfl

theorem Location.Proper.of_prefix {a b : Location} (hb : b.Proper) (h : a <+: b) : a.Proper :=
  fun n hn => hb n (h.subset hn)

theorem Location.Proper.append {a b : Location} (ha : a.Proper) (hb : b.Proper) :
    Location.Proper (a ++ b) :=
  fun n hn => (List.mem_append.mp hn).elim (ha n) (hb n)

theorem Location.Proper.of_append_right {a b : Location} (h : Location.Proper (a ++ b)) :
    b.Proper :=
  fun n hn => h n (List.mem_append_right a hn)

theorem Path.base_proper {working : Location} (h : working.Proper) (p : Path) :
    (p.base working).Proper := by
  unfold Path.base
  split
  · exact h
  · simp [Location.Proper]

theorem follow_proper : ∀ {names : List Text} {l : Location}, l.Proper → [] ∉ names →
    (Path.follow l names).Proper
  | [], _, h, _ => h
  | n :: r, l, h, hn => by
    obtain ⟨h0, hr⟩ := not_or.mp (mt List.mem_cons.mpr hn)
    rw [Path.follow]
    split_ifs with hup
    · exact follow_proper (h.of_prefix (List.dropLast_prefix l)) hr
    · refine follow_proper (h.append fun m hm => ?_) hr
      rw [List.mem_singleton.mp hm]
      exact ⟨Ne.symm h0, hup⟩

/-- A path leads to a location with proper names. -/
theorem Path.resolve_proper {p : Path} {working : Location} (hw : working.Proper)
    (hp : [] ∉ p.names) : (p.resolve working).Proper := by
  rw [Path.resolve]
  exact follow_proper (Path.base_proper hw p) hp

/-- The files of a folder are listed by proper names. -/
theorem Disk.Proper.of_mem_files {disk : Disk} {source f : Location}
    {entries : List (Text × Entry)} (h : disk.Proper)
    (he : disk.find? source = some (.folder entries)) (hf : f ∈ (Entry.folder entries).files) :
    Location.Proper (source ++ f) := by
  obtain ⟨content, hc⟩ := (Entry.mem_files_iff_below he).mp hf
  exact h _ (by simp [hc])

/-! ### A visit to one file -/

variable {host : Host} {q : Request} {source : Location} {target : Option Location}

/-- Clears the output of a visit, if it is not the file itself. -/
def startVisit (host : Host) (q : Request) (target : Option Location) (output : Path) :
    Run RunError Unit :=
  if target.isSome && !q.dryRun then clearOutput host output else pure ()

/-- Writes what a file was rendered to, and tells whether it was. -/
def writeRendered (host : Host) (dryRun : Bool) (output : Path) :
    Option Bytes → Run ContentError Bool
  | none => return false
  | some new => do
    if !dryRun then writeOutput host output new
    return true

theorem transformFile_eq (o : Options) (dryRun : Bool) (path output : Path) :
    transformFile host o dryRun path output = (do
      let content ← Run.ofExcept .file ((← Run.disk).readFile host.working path)
      writeRendered host dryRun output (← Run.ofExcept id (renderBytes o content))) := rfl

/-- Renders the file of a visit, if its suffix is wanted. -/
def renderVisit (host : Host) (q : Request) (path output : Path) (file : Location) :
    Run RunError Bool :=
  if q.extensions.contains (suffixOf file.name) then
    (transformFile host q.options q.dryRun path output).adapt (RunError.content path.text)
  else pure false

/-- Tells that a file was rendered, or copies or skips it. -/
def endVisit (host : Host) (q : Request) (target : Option Location) (path output : Path)
    (transformed : Bool) : Run RunError Fate :=
  if transformed then do
    Run.tell (.transformed path.text)
    return .transformed
  else if target.isSome && !q.onlyTransformed then do
    if !q.dryRun then copyFile host path output
    return .copied
  else return .skipped

theorem visitFile_eq (file : Location) : visitFile host q source target file = (do
    startVisit host q target (.ofLocation (target.getD source ++ file))
    let transformed ← renderVisit host q (.ofLocation (source ++ file))
      (.ofLocation (target.getD source ++ file)) file
    endVisit host q target (.ofLocation (source ++ file))
      (.ofLocation (target.getD source ++ file)) transformed) := by
  unfold visitFile startVisit renderVisit endVisit
  split_ifs <;> rfl

/-- What one visit may do to a disk, unless it is dry: remove the file at its output, make
the folders above the output, and write the output. -/
structure VisitAllowed (D : Disk → Disk → Prop) (host : Host) (q : Request)
    (target : Option Location) (output : Path) : Prop where
  remove : q.dryRun = false → target.isSome →
    ∀ d d', d.removeFile host.working output = .ok d' → D d d'
  make : q.dryRun = false → ∀ d, D d (d.makeFolders host.working output.parent).2
  write : q.dryRun = false →
    ∀ d d' content, d.writeFile host.working output content = .ok d' → D d d'

theorem VisitAllowed.mono {D E : Disk → Disk → Prop} {output : Path}
    (h : VisitAllowed D host q target output) (hDE : ∀ d d', D d d' → E d d') :
    VisitAllowed E host q target output where
  remove hdry ht d d' hd := hDE d d' (h.remove hdry ht d d' hd)
  make hdry d := hDE d _ (h.make hdry d)
  write hdry d d' content hd := hDE d d' (h.write hdry d d' content hd)

section

variable {D : Disk → Disk → Prop} [IsPreorder Disk D] {output : Path}

theorem startVisit_stays (h : VisitAllowed D host q target output) :
    Run.Stays D (startVisit host q target output) := by
  unfold startVisit clearOutput
  split_ifs with ht
  · obtain ⟨htarget, hdry⟩ : target.isSome = true ∧ q.dryRun = false := by simpa using ht
    refine .bind .disk fun d => ?_
    split_ifs
    · exact .change (h.remove hdry htarget) _
    · exact .pure _
  · exact .pure _

theorem transformFile_stays (h : VisitAllowed D host q target output) (o : Options)
    (path : Path) : Run.Stays D (transformFile host o q.dryRun path output) := by
  rw [transformFile_eq]
  refine .bind .disk fun d => .bind (.ofExcept _ _) fun content => .bind (.ofExcept _ _) fun r => ?_
  cases r with
  | none => exact .pure _
  | some new =>
    unfold writeRendered writeOutput
    split_ifs with hd
    · have hdry : q.dryRun = false := by simpa using hd
      exact .bind (.bind (.act (h.make hdry) _) fun _ =>
        .change (fun d d' => h.write hdry d d' new) _) fun _ => .pure _
    · exact .pure _

theorem renderVisit_stays (h : VisitAllowed D host q target output) (path : Path)
    (file : Location) : Run.Stays D (renderVisit host q path output file) := by
  unfold renderVisit
  split_ifs
  · exact .adapt (transformFile_stays h _ _) _
  · exact .pure _

theorem endVisit_stays (h : VisitAllowed D host q target output) (path : Path)
    (transformed : Bool) : Run.Stays D (endVisit host q target path output transformed) := by
  unfold endVisit copyFile
  split_ifs with _ _ hd
  · exact .bind (.tell rfl) fun _ => .pure _
  · have hdry : q.dryRun = false := by simpa using hd
    exact .bind (.bind (.act (h.make hdry) _) fun _ => .bind .disk fun d => .bind (.ofExcept _ _)
      fun content => .change (fun d d' => h.write hdry d d' content) _) fun _ => .pure _
  · exact .pure _
  · exact .pure _

theorem visitFile_stays {file : Location}
    (h : VisitAllowed D host q target (.ofLocation (target.getD source ++ file))) :
    Run.Stays D (visitFile host q source target file) := by
  rw [visitFile_eq]
  exact .bind (startVisit_stays h) fun _ => .bind (renderVisit_stays h _ file) fun transformed =>
    endVisit_stays h _ transformed

/-- **What every visit keeps, a walk over files keeps**, also if it stops early. -/
theorem visitFiles_stays : ∀ {files : List Location} (report : Report),
    (∀ f ∈ files, VisitAllowed D host q target (.ofLocation (target.getD source ++ f))) →
    Run.Stays D (visitFiles host q source target files report)
  | [], _, _ => .pure _
  | f :: rest, _, h => by
    rw [visitFiles]
    exact .bind (visitFile_stays (h f (List.mem_cons_self ..))) fun _ =>
      visitFiles_stays _ fun g hg => h g (List.mem_cons_of_mem _ hg)

end

/-! ### What a visit changes -/

/-- The disks differ at most at outputs, where the first one has no folder, and in folders that
the second one has on the way to an output, where the first one has nothing. -/
def ChangesOutputs (outputs : Location → Prop) (before after : Disk) : Prop :=
  ∀ p, after.look p = before.look p ∨ (outputs p ∧ before.look p ≠ some .folder) ∨
    (before.look p = none ∧ after.look p = some .folder ∧ ∃ l, outputs l ∧ p <+: l)

instance {outputs : Location → Prop} : IsPreorder Disk (ChangesOutputs outputs) where
  refl _ _ := .inl rfl
  trans a b c h h' p := by
    rcases h' p with hsame | ⟨hout, hb⟩ | ⟨hb, hc, hl⟩
    · rw [hsame]
      exact h p
    · rcases h p with hsame | ⟨-, ha⟩ | ⟨-, hfolder, -⟩
      · exact .inr (.inl ⟨hout, hsame ▸ hb⟩)
      · exact .inr (.inl ⟨hout, ha⟩)
      · exact absurd hfolder hb
    · rcases h p with hsame | hout | ⟨-, hfolder, -⟩
      · exact .inr (.inr ⟨hsame ▸ hb, hc, hl⟩)
      · exact .inr (.inl hout)
      · rw [hb] at hfolder
        cases hfolder

namespace ChangesOutputs

variable {outputs : Location → Prop} {before after : Disk}

/-- A file that is no output is on both disks or on none. -/
theorem look_eq_file_iff (h : ChangesOutputs outputs before after) {p : Location}
    (hp : ¬ outputs p) (c : Bytes) :
    after.look p = some (.file c) ↔ before.look p = some (.file c) := by
  rcases h p with hsame | ⟨hout, -⟩ | ⟨hnone, hfolder, -⟩
  · rw [hsame]
  · exact absurd hout hp
  · rw [hnone, hfolder]
    simp

/-- Nothing changes at a location that is neither an output nor above one. -/
theorem look_eq (h : ChangesOutputs outputs before after) {p : Location}
    (hp : ∀ l, outputs l → ¬ p <+: l) : after.look p = before.look p := by
  rcases h p with hsame | ⟨hout, -⟩ | ⟨-, -, l, hl, hpre⟩
  · exact hsame
  · exact absurd (List.prefix_refl p) (hp p hout)
  · exact absurd hpre (hp l hl)

end ChangesOutputs

/-- **A visit changes no more than its output and what is above it.** -/
theorem visitAllowed_changesOutputs {outputs : Location → Prop} {l : Location} (hup : upName ∉ l)
    (hout : q.dryRun = false → outputs l) (target : Option Location) :
    VisitAllowed (ChangesOutputs outputs) host q target (.ofLocation l) := by
  have hat : (Path.ofLocation l).resolve host.working = l :=
    Path.resolve_ofLocation hup host.working
  -- the place of the output has no folder when it is removed or written
  have hplace : ∀ d d' : Disk, q.dryRun = false → d.look l ≠ some .folder →
      (∀ p, p ≠ l → d'.look p = d.look p) → ChangesOutputs outputs d d' := by
    intro d d' hdry hnot hsame p
    by_cases hp : p = l
    · exact .inr (.inl (hp ▸ ⟨hout hdry, hnot⟩))
    · exact .inl (hsame p hp)
  refine ⟨fun hdry _ d d' h => ?_, fun hdry d p => ?_, fun hdry d d' content h => ?_⟩
  · obtain ⟨⟨content, hc⟩, rfl⟩ := Disk.removeFile_eq_ok h
    rw [hat] at hc ⊢
    have hnot : d.look l ≠ some .folder := by simp [hc]
    exact hplace d _ hdry hnot fun p hp => Entry.look_eraseFile_ne hnot hp
  · have hparent : upName ∉ (Path.ofLocation l).parent.names :=
      fun hm => hup (List.mem_of_mem_dropLast hm)
    rcases Disk.makeFolders_grownTo d host.working hparent p with hsame | ⟨hpre, hnone, hfolder⟩
    · exact .inl hsame
    · rw [Path.resolve_parent hup] at hpre
      exact .inr (.inr ⟨hnone, hfolder, l, hout hdry, hpre.trans (List.dropLast_prefix l)⟩)
  · obtain ⟨hnot, rfl⟩ := Disk.writeFile_eq_ok h
    rw [hat] at hnot ⊢
    exact hplace d _ hdry hnot fun p hp => Entry.look_putFile_ne hnot hp content

/-! ### The preparation -/

variable {root : Path}

/-- Takes the snapshot, unless the source was backed up last. -/
def backUp (host : Host) (root : Path) (source : Location) : Run RunError (Option Path) := do
  if (← get).last = some source then pure none
  else some <$> (snapshot host source root root.text).adapt RunError.snapshot

/-- What happens before the files are visited; nothing in a dry run. -/
def preparation (host : Host) (root : Path) (q : Request) (source : Location)
    (target : Option Location) : Run RunError (Option Text) :=
  if q.dryRun then pure none else prepare host root source target

theorem run_backUp_again {s : Session} (h : s.last = some source) :
    (backUp host root source).run.run s = (.ok none, s) := by
  show ((if s.last = some source then pure none else _ : Run RunError (Option Path))).run.run s = _
  rw [if_pos h]
  rfl

theorem run_backUp_first {s : Session} (h : s.last ≠ some source) :
    (backUp host root source).run.run s =
      match (snapshot host source root root.text).run.run s with
      | (.ok place, s') => (.ok (some place), s')
      | (.error e, s') => (.error (.snapshot e), s') := by
  show ((if s.last = some source then _ else
    some <$> (snapshot host source root root.text).adapt RunError.snapshot :
      Run RunError (Option Path))).run.run s = _
  rw [if_neg h, map_eq_pure_bind, Run.run_bind, Run.run_adapt]
  rcases (snapshot host source root root.text).run.run s with ⟨r, s'⟩
  cases r <;> rfl

theorem backUp_cases (host : Host) (root : Path) (source : Location) (s : Session) :
    (s.last = some source ∧ (backUp host root source).run.run s = (.ok none, s)) ∨
    (s.last ≠ some source ∧ ∃ s',
      (∃ e, (snapshot host source root root.text).run.run s = (.error e, s') ∧
        (backUp host root source).run.run s = (.error (.snapshot e), s')) ∨
      ∃ place, (snapshot host source root root.text).run.run s = (.ok place, s') ∧
        (backUp host root source).run.run s = (.ok (some place), s')) := by
  by_cases h : s.last = some source
  · exact .inl ⟨h, run_backUp_again h⟩
  · refine .inr ⟨h, ?_⟩
    rw [run_backUp_first h]
    rcases (snapshot host source root root.text).run.run s with ⟨e | place, s'⟩
    · exact ⟨s', .inl ⟨e, rfl, rfl⟩⟩
    · exact ⟨s', .inr ⟨place, rfl, rfl⟩⟩

/-- A dry run is not prepared. -/
theorem run_preparation_dry (hdry : q.dryRun = true) (s : Session) :
    (preparation host root q source target).run.run s = (.ok none, s) := by
  rw [preparation, if_pos hdry]
  rfl

/-- A run that is not dry backs the source up, remembers it and makes the target. -/
theorem run_preparation (hdry : q.dryRun = false) (s : Session) :
    (preparation host root q source target).run.run s =
      match (backUp host root source).run.run s with
      | (.error e, s') => (.error e, s')
      | (.ok backup, s') =>
        let kept := { s' with last := some source }
        match target with
        | none => (.ok (backup.map Path.text), kept)
        | some t =>
          let made := kept.disk.makeFolders host.working (.ofLocation t)
          ((made.1.mapError .file).map fun _ => backup.map Path.text,
            { kept with disk := made.2 }) := by
  have hprepare : prepare host root source target = backUp host root source >>= fun backup =>
      modify (fun s => { s with last := some source }) >>= fun _ =>
        match target with
        | none => pure (backup.map Path.text)
        | some t => Run.act .file (·.makeFolders host.working (.ofLocation t)) >>= fun _ =>
          pure (backup.map Path.text) := by
    unfold prepare backUp
    rw [bind_assoc]
    congr 1
    funext lift
    split_ifs <;> cases target <;> rfl
  rw [preparation, if_neg (by simp [hdry]), hprepare, Run.run_bind]
  rcases (backUp host root source).run.run s with ⟨r, s'⟩
  cases r with
  | error e => rfl
  | ok backup =>
    cases target with
    | none => rfl
    | some t =>
      show (Run.act .file (·.makeFolders host.working (.ofLocation t)) >>= fun _ =>
        pure (backup.map Path.text) : Run RunError (Option Text)).run.run
          { s' with last := some source } = _
      rw [Run.run_bind, Run.run_act]
      dsimp only
      rcases s'.disk.makeFolders host.working (.ofLocation t) with ⟨r, made⟩
      cases r <;> rfl

/-- A run in place of a source that was backed up last needs no preparation, nor does a
dry run. -/
theorem run_preparation_skipped {s : Session} (h : q.dryRun = true ∨ s.last = some source) :
    (preparation host root q source none).run.run s = (.ok none, s) := by
  by_cases hdry : q.dryRun = true
  · exact run_preparation_dry hdry s
  · have hlast := h.resolve_left hdry
    rw [run_preparation (by simpa using hdry), run_backUp_again hlast]
    simp only [Option.map_none]
    rw [← hlast]

/-- **What the preparation of a run in place can do**: nothing, or a snapshot that fails or
is completed. -/
theorem preparation_inPlace_cases (host : Host) (root : Path) (q : Request) (source : Location)
    (s : Session) :
    ((q.dryRun = true ∨ s.last = some source) ∧
      (preparation host root q source none).run.run s = (.ok none, s)) ∨
    (s.last ≠ some source ∧ ∃ s',
      (∃ e, (snapshot host source root root.text).run.run s = (.error e, s') ∧
        (preparation host root q source none).run.run s = (.error (.snapshot e), s')) ∨
      ∃ place, (snapshot host source root root.text).run.run s = (.ok place, s') ∧
        (preparation host root q source none).run.run s =
          (.ok (some place.text), { s' with last := some source })) := by
  by_cases h : q.dryRun = true ∨ s.last = some source
  · exact .inl ⟨h, run_preparation_skipped h⟩
  · obtain ⟨hdry, hlast⟩ := not_or.mp h
    refine .inr ⟨hlast, ?_⟩
    rw [run_preparation (by simpa using hdry)]
    rcases backUp_cases host root source s with
      ⟨hl, -⟩ | ⟨-, s', ⟨e, hsnap, hb⟩ | ⟨place, hsnap, hb⟩⟩
    · exact absurd hl hlast
    · exact ⟨s', .inl ⟨e, hsnap, by rw [hb]⟩⟩
    · exact ⟨s', .inr ⟨place, hsnap, by rw [hb]; rfl⟩⟩

/-! ### The whole run -/

/-- A run whose folder can be named looks for it, and then for the target. -/
theorem run_transformFolder_eq {s : Session} (hf : folderOf host q.folder = .ok source) :
    (transformFolder host root q).run.run s = (match s.disk.find? source with
      | some (.folder entries) => (do
        let target ← Run.ofExcept id (targetOf host q source)
        let backup ← preparation host root q source target
        let report ← visitFiles host q source target (Entry.folder entries).files
          ⟨[], [], [], backup, q.dryRun⟩
        Run.tell (.finished source.text report.transformed.length report.copied.length
          report.skipped.length)
        return report)
      | _ => throw (.missingFolder q.folder) : Run RunError Report).run.run s := by
  rw [transformFolder, Run.run_bind, Run.run_ofExcept, hf]
  simp only [Except.mapError]
  rw [Run.run_bind, Run.run_disk]
  unfold preparation
  -- the continuation is compiled into both branches of the conditional
  cases q.dryRun with
  | true => rfl
  | false => rfl

theorem run_transformFolder_unnamed {s : Session} {e : RunError}
    (hf : folderOf host q.folder = .error e) :
    (transformFolder host root q).run.run s = (.error e, s) := by
  rw [transformFolder, Run.run_bind, Run.run_ofExcept, hf]
  rfl

theorem run_transformFolder_missing {s : Session} (hf : folderOf host q.folder = .ok source)
    (he : ∀ entries, s.disk.find? source ≠ some (.folder entries)) :
    (transformFolder host root q).run.run s = (.error (.missingFolder q.folder), s) := by
  rw [run_transformFolder_eq hf]
  split
  · rename_i entries h
    exact absurd h (he entries)
  · rfl

theorem run_transformFolder_untargeted {s : Session} {entries : List (Text × Entry)} {e : RunError}
    (hf : folderOf host q.folder = .ok source) (he : s.disk.find? source = some (.folder entries))
    (ht : targetOf host q source = .error e) :
    (transformFolder host root q).run.run s = (.error e, s) := by
  rw [run_transformFolder_eq hf, he]
  simp only
  rw [Run.run_bind, Run.run_ofExcept, ht]
  rfl

/-- A run that is not refused is prepared and then visits the files that the folder holds
when it begins. -/
theorem run_transformFolder {s : Session} {entries : List (Text × Entry)}
    (hf : folderOf host q.folder = .ok source) (he : s.disk.find? source = some (.folder entries))
    (ht : targetOf host q source = .ok target) :
    (transformFolder host root q).run.run s =
      match (preparation host root q source target).run.run s with
      | (.error e, s') => (.error e, s')
      | (.ok backup, s') =>
        match (visitFiles host q source target (Entry.folder entries).files
            ⟨[], [], [], backup, q.dryRun⟩).run.run s' with
        | (.error e, s'') => (.error e, s'')
        | (.ok report, s'') => (.ok report, { s'' with
            log := s''.log ++ [.finished source.text report.transformed.length
              report.copied.length report.skipped.length] }) := by
  rw [run_transformFolder_eq hf, he]
  simp only
  rw [Run.run_bind, Run.run_ofExcept, ht]
  simp only [Except.mapError]
  rw [Run.run_bind]
  rcases (preparation host root q source target).run.run s with ⟨e | backup, s'⟩
  · rfl
  · simp only
    rw [Run.run_bind]
    rcases (visitFiles host q source target (Entry.folder entries).files
      ⟨[], [], [], backup, q.dryRun⟩).run.run s' with ⟨e | report, s''⟩
    · rfl
    · rfl

/-- Once it is prepared a run answers as its walk does and leaves the disk of the walk. -/
theorem run_transformFolder_prepared {s prepared : Session} {entries : List (Text × Entry)}
    {backup : Option Text} (hf : folderOf host q.folder = .ok source)
    (he : s.disk.find? source = some (.folder entries)) (ht : targetOf host q source = .ok target)
    (hp : (preparation host root q source target).run.run s = (.ok backup, prepared)) :
    ((transformFolder host root q).run.run s).1 = ((visitFiles host q source target
        (Entry.folder entries).files ⟨[], [], [], backup, q.dryRun⟩).run.run prepared).1 ∧
      ((transformFolder host root q).run.run s).2.disk = ((visitFiles host q source target
        (Entry.folder entries).files ⟨[], [], [], backup, q.dryRun⟩).run.run prepared).2.disk := by
  rw [run_transformFolder hf he ht, hp]
  dsimp only
  rcases (visitFiles host q source target (Entry.folder entries).files
    ⟨[], [], [], backup, q.dryRun⟩).run.run prepared with ⟨e | report, s'⟩
  · exact ⟨rfl, rfl⟩
  · exact ⟨rfl, rfl⟩

/-- A run is refused and leaves the session as it was, or it has a folder, and a target
where it needs one. -/
theorem transformFolder_cases (host : Host) (root : Path) (q : Request) (s : Session) :
    (∃ e, (transformFolder host root q).run.run s = (.error e, s)) ∨
      ∃ source entries target, folderOf host q.folder = .ok source ∧
        s.disk.find? source = some (.folder entries) ∧ targetOf host q source = .ok target := by
  cases hf : folderOf host q.folder with
  | error e => exact .inl ⟨e, run_transformFolder_unnamed hf⟩
  | ok source =>
    by_cases he : ∃ entries, s.disk.find? source = some (.folder entries)
    · obtain ⟨entries, he⟩ := he
      cases ht : targetOf host q source with
      | error e => exact .inl ⟨e, run_transformFolder_untargeted hf he ht⟩
      | ok target => exact .inr ⟨source, entries, target, rfl, he, ht⟩
    · exact .inl ⟨_, run_transformFolder_missing hf (not_exists.mp he)⟩

/-! ### The sessions that a run passes -/

/-- The session that a run leaves. -/
def afterRun (host : Host) (root : Path) (q : Request) (s : Session) : Session :=
  ((transformFolder host root q).run.run s).2

/-- The lines that a run adds to the log. -/
def toldBy (host : Host) (root : Path) (q : Request) (s : Session) : List Event :=
  (afterRun host root q s).log.drop s.log.length

/-- The sessions that a run passes once it is prepared: after each of its first files, and
at its end. -/
inductive Passes (host : Host) (root : Path) (q : Request) (s : Session) : Session → Prop
  | visited {source : Location} {entries : List (Text × Entry)} {target : Option Location}
      {backup : Option Text} {prepared : Session} {front rest : List Location}
      (hf : folderOf host q.folder = .ok source)
      (he : s.disk.find? source = some (.folder entries))
      (ht : targetOf host q source = .ok target)
      (hp : (preparation host root q source target).run.run s = (.ok backup, prepared))
      (hfiles : (Entry.folder entries).files = front ++ rest) :
      Passes host root q s ((visitFiles host q source target front
        ⟨[], [], [], backup, q.dryRun⟩).run.run prepared).2
  | ended : Passes host root q s (afterRun host root q s)

/-- A run passes no other session than the one that it began with, or it is not refused. -/
theorem Passes.cases {s s' : Session} (h : Passes host root q s s') : s' = s ∨
    ∃ source entries target, folderOf host q.folder = .ok source ∧
      s.disk.find? source = some (.folder entries) ∧ targetOf host q source = .ok target := by
  cases h with
  | visited hf he ht hp hfiles => exact .inr ⟨_, _, _, hf, he, ht⟩
  | ended =>
    refine (transformFolder_cases host root q s).imp_left fun ⟨e, he⟩ => ?_
    rw [afterRun, he]

theorem toldBy_eq {s : Session} {told : List Event}
    (h : (afterRun host root q s).log = s.log ++ told) : toldBy host root q s = told := by
  rw [toldBy, h, List.drop_left]

theorem toldBy_of_refused {s : Session} {e : RunError}
    (h : (transformFolder host root q).run.run s = (.error e, s)) : toldBy host root q s = [] :=
  toldBy_eq (by rw [afterRun, h, List.append_nil])

/-- What every visit keeps is kept between the preparation and all later sessions. -/
theorem within_of_passes {D : Disk → Disk → Prop} [IsPreorder Disk D] {s prepared s' : Session}
    {entries : List (Text × Entry)} {backup : Option Text}
    (hf : folderOf host q.folder = .ok source) (he : s.disk.find? source = some (.folder entries))
    (ht : targetOf host q source = .ok target)
    (hp : (preparation host root q source target).run.run s = (.ok backup, prepared))
    (hallowed : ∀ f ∈ (Entry.folder entries).files,
      VisitAllowed D host q target (.ofLocation (target.getD source ++ f)))
    (h : Passes host root q s s') : Within D prepared s' := by
  cases h with
  | @visited source' entries' target' backup' prepared' front rest hf' he' ht' hp' hfiles =>
    obtain rfl : source = source' := by simpa [hf] using hf'
    obtain rfl : entries = entries' := by simpa [he] using he'
    obtain rfl : target = target' := by simpa [ht] using ht'
    obtain ⟨rfl, rfl⟩ : backup = backup' ∧ prepared = prepared' := by
      rw [hp] at hp'
      cases hp'
      exact ⟨rfl, rfl⟩
    exact visitFiles_stays _ (fun f hf => hallowed f (hfiles ▸ List.mem_append_left _ hf)) prepared
  | ended =>
    have hwalk : Within D prepared ((visitFiles host q source target (Entry.folder entries).files
        ⟨[], [], [], backup, q.dryRun⟩).run.run prepared).2 := visitFiles_stays _ hallowed prepared
    rw [afterRun, run_transformFolder hf he ht, hp]
    dsimp only
    generalize (visitFiles host q source target (Entry.folder entries).files
      ⟨[], [], [], backup, q.dryRun⟩).run.run prepared = walked at hwalk ⊢
    rcases walked with ⟨e | report, s''⟩
    · exact hwalk
    · exact hwalk.trans (.tell rfl _)

end Handout
