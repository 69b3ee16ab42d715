/-
# Extraction and its source

An extraction lists the files of the source and puts an output for each of them below
the target, which may be any folder but the source itself. So the target may lie inside
the source, or the source inside the target, and an output may stand where a file of
the source is. Then that file is removed before the walk gets to write anything there.

Apart from files at outputs nothing that is shown is lost (`KeepsShown`). So a source
none of whose files stands at an output is left alone (`keepsBelow_afterRun`). Conversely,
if one does, the run that wants only rendered files, and of no suffix, removes it, unless
the walk stops earlier at an output that is a folder (`look_afterRun_clearing`). For a
source that needs no snapshot this is exact (`extraction_keeps_source_iff`).

Key definitions: `KeepsShown`, `OutputsApart`, `Overwrites`.
Key theorems: `visitAllowed_keepsShown`, `keepsBelow_afterRun`, `look_afterRun_clearing`,
`extraction_keeps_source_iff`.
-/
import Handout.Proofs.Running

namespace Handout

open Entry

variable {host : Host} {root : Path} {q : Request} {source target : Location}

/-! ### Everything but the outputs -/

/-- What the first disk shows the second one shows, except for files at the outputs. -/
def KeepsShown (outputs : Location → Prop) (before after : Disk) : Prop :=
  ∀ p x, (outputs p → x = .folder) → before.look p = some x → after.look p = some x

instance {outputs : Location → Prop} : IsPreorder Disk (KeepsShown outputs) where
  refl _ _ _ _ h := h
  trans _ _ _ h h' p x hx hp := h' p x hx (h p x hx hp)

theorem KeepsShown.folder {outputs : Location → Prop} {before after : Disk}
    (h : KeepsShown outputs before after) {p : Location} (hp : before.look p = some .folder) :
    after.look p = some .folder :=
  h p .folder (fun _ => rfl) hp

theorem ChangesOutputs.keepsShown {outputs : Location → Prop} {before after : Disk}
    (h : ChangesOutputs outputs before after) : KeepsShown outputs before after := by
  intro p x hx hp
  rcases h p with hsame | ⟨hout, hnot⟩ | ⟨hnone, -, -⟩
  · rw [hsame, hp]
  · exact absurd (hx hout ▸ hp) hnot
  · rw [hnone] at hp
    cases hp

/-- A visit loses no more than a file at its output. -/
theorem visitAllowed_keepsShown {outputs : Location → Prop} {l : Location} (hl : l.Proper)
    (hout : q.dryRun = false → outputs l) (target : Option Location) :
    VisitAllowed (KeepsShown outputs) host q target (.ofLocation l) :=
  (visitAllowed_changesOutputs hl.no_up hout target).mono fun _ _ h => h.keepsShown

/-! ### The target -/

/-- A folder that a text names has proper names. -/
theorem proper_of_folderOf (hworking : host.working.Proper) (hhome : host.ProperHomes) {t : Text}
    {l : Location} (h : folderOf host t = .ok l) : l.Proper := by
  have hnames : [] ∉ (Path.parse t).names := by simp [Path.parse]
  unfold folderOf at h
  split at h
  · cases h
  · rename_i p hp
    cases h
    refine Path.resolve_proper hworking ?_
    unfold Path.expandHome at hp
    split at hp
    · rename_i account r _ hr
      obtain ⟨home, hknown, rfl⟩ := Option.map_eq_some_iff.mp hp
      rw [hr] at hnames
      intro hm
      rcases List.mem_append.mp hm with hm | hm
      · exact (hhome account home hknown _ hm).1 rfl
      · exact hnames (List.mem_cons_of_mem _ hm)
    · cases hp
      exact hnames

theorem targetOf_eq_some (h : targetOf host q source = .ok (some target)) :
    ∃ t, folderOf host t = .ok target ∧ target ≠ source := by
  unfold targetOf at h
  split_ifs at h
  · cases h
  · split at h
    · cases h
    · rename_i t _
      split at h
      · cases h
      · rename_i l hl
        split_ifs at h with hne
        cases h
        exact ⟨t, hl, hne⟩

theorem proper_of_targetOf (hworking : host.working.Proper) (hhome : host.ProperHomes)
    (h : targetOf host q source = .ok (some target)) : target.Proper := by
  obtain ⟨t, ht, -⟩ := targetOf_eq_some h
  exact proper_of_folderOf hworking hhome ht

/-! ### A source that no output meets -/

/-- No file of the source stands where a file of the source is put. -/
def OutputsApart (source target : Location) (disk : Disk) : Prop :=
  ∀ f c r c', disk.look (source ++ f) = some (.file c) →
    disk.look (source ++ r) = some (.file c') → target ++ f ≠ source ++ r

/-- The preparation keeps the files of the source, if its snapshot spares them. -/
theorem keepsBelow_preparation (target : Option Location) {s : Session}
    (hspares : q.dryRun = false → s.last ≠ some source → SparesSource host s.disk source root) :
    KeepsBelow source s.disk ((preparation host root q source target).run.run s).2.disk := by
  by_cases hdry : q.dryRun = true
  · rw [run_preparation_dry hdry]
    exact fun _ _ h => h
  · rw [Bool.not_eq_true] at hdry
    have hmade := fun (d : Disk) (t : Location) =>
      (Disk.makeFolders_sameFiles d host.working (.ofLocation t)).keepsFiles
    rw [run_preparation hdry]
    rcases backUp_cases host root source s with
      ⟨-, hb⟩ | ⟨hlast, s', ⟨e, hsnap, hb⟩ | ⟨place, hsnap, hb⟩⟩
    · rw [hb]
      cases target with
      | none => exact fun r c h => h
      | some t => exact fun r c h => hmade _ t _ c h
    · have hkeep := keepsBelow_of_spares (hspares hdry hlast) root.text
      rw [afterSnapshot, hsnap] at hkeep
      rwa [hb]
    · have hkeep := keepsBelow_of_spares (hspares hdry hlast) root.text
      rw [afterSnapshot, hsnap] at hkeep
      rw [hb]
      cases target with
      | none => exact hkeep
      | some t => exact fun r c h => hmade _ t _ c (hkeep r c h)

/-- The outputs of the files of a list. -/
def OutputOf (target : Location) (files : List Location) (p : Location) : Prop :=
  ∃ f ∈ files, p = target ++ f

/-- **A source that no output meets is left alone**, whether the run answers or fails. -/
theorem keepsBelow_afterRun {s : Session} (hdisk : s.disk.Proper) (htarget : target.Proper)
    (hf : folderOf host q.folder = .ok source) (ht : targetOf host q source = .ok (some target))
    (hspares : q.dryRun = false → s.last ≠ some source → SparesSource host s.disk source root)
    (hapart : q.dryRun = false → OutputsApart source target s.disk) :
    KeepsBelow source s.disk (afterRun host root q s).disk := by
  by_cases hfind : ∃ entries, s.disk.find? source = some (.folder entries)
  · obtain ⟨entries, he⟩ := hfind
    have hprep := keepsBelow_preparation (some target) hspares
    cases hp : (preparation host root q source (some target)).run.run s with
    | mk result prepared =>
      rw [hp] at hprep
      cases result with
      | error e => rwa [afterRun, run_transformFolder hf he ht, hp]
      | ok backup =>
        have hwalk := within_of_passes (D := KeepsShown fun p =>
            q.dryRun = false ∧ OutputOf target (folder entries).files p) hf he ht hp
          (fun f hmem => visitAllowed_keepsShown
            (htarget.append (hdisk.of_mem_files he hmem).of_append_right)
            (fun hdry => ⟨hdry, f, hmem, rfl⟩) _) .ended
        intro r c hr
        rw [← look_eq_file_iff]
        refine hwalk.disk _ _ ?_ (look_eq_file_iff.mpr (hprep r c hr))
        rintro ⟨hdry, f, hmem, hout⟩
        obtain ⟨c', hc'⟩ := (mem_files_iff_below he).mp hmem
        exact absurd hout.symm (hapart hdry f c' r c hc' (look_eq_file_iff.mpr hr))
  · rw [afterRun, run_transformFolder_missing hf (not_exists.mp hfind)]
    exact fun _ _ h => h

/-! ### An output that is a folder ends the walk -/

theorem visitFiles_append (host : Host) (q : Request) (source : Location)
    (target : Option Location) : ∀ (front rest : List Location) (report : Report),
    visitFiles host q source target (front ++ rest) report =
      visitFiles host q source target front report >>= visitFiles host q source target rest
  | [], rest, report => by rw [List.nil_append, visitFiles, pure_bind]
  | f :: front, rest, report => by
    rw [List.cons_append, visitFiles, visitFiles, bind_assoc]
    congr 1
    funext fate
    exact visitFiles_append host q source target front rest _

theorem run_visitFile_blocked (host : Host) (source : Location) (hdry : q.dryRun = false)
    {f : Location} {s : Session} (hl : Location.Proper (target ++ f))
    (h : s.disk.look (target ++ f) = some .folder) :
    ∃ e, (visitFile host q source (some target) f).run.run s = (.error e, s) := by
  have hat : (Path.ofLocation (target ++ f)).resolve host.working = target ++ f :=
    Path.resolve_ofLocation hl.no_up host.working
  have hentry : s.disk.hasEntry host.working (.ofLocation (target ++ f)) = true := by
    obtain ⟨entries, he⟩ := look_eq_folder_iff.mp h
    rw [Disk.hasEntry, Disk.entry?_eq_find? hl.no_up, hat, he]
    rfl
  have hclear : ∃ e, (clearOutput host (.ofLocation (target ++ f))).run.run s = (.error e, s) := by
    rw [clearOutput, Run.run_bind, Run.run_disk]
    simp only
    rw [if_pos hentry, Run.run_change]
    cases hr : s.disk.removeFile host.working (.ofLocation (target ++ f)) with
    | error e => exact ⟨_, rfl⟩
    | ok d =>
      obtain ⟨⟨content, hc⟩, -⟩ := Disk.removeFile_eq_ok hr
      rw [hat, h] at hc
      cases hc
  obtain ⟨e, he⟩ := hclear
  refine ⟨e, ?_⟩
  rw [visitFile_eq, Run.run_bind, startVisit, if_pos (by simp [hdry])]
  simp only [Option.getD_some]
  rw [he]

/-! ### A walk that only clears -/

theorem visitFile_clearing (hext : q.extensions = []) (honly : q.onlyTransformed = true)
    (target : Option Location) (f : Location) : visitFile host q source target f =
      startVisit host q target (.ofLocation (target.getD source ++ f)) >>= fun _ =>
        pure .skipped := by
  have hend : ∀ path output, endVisit host q target path output false = pure .skipped := by
    intro path output
    simp [endVisit, honly]
  rw [visitFile_eq]
  congr 1
  funext _
  simp only [renderVisit, hext, List.contains_nil, Bool.false_eq_true, if_false, pure_bind, hend]

/-- Nothing is shown that was not shown before. -/
def ShowsNothingNew (before after : Disk) : Prop :=
  ∀ p, before.look p = none → after.look p = none

instance : IsPreorder Disk ShowsNothingNew where
  refl _ _ h := h
  trans _ _ _ h h' p hp := h' p (h p hp)

theorem visitFiles_clearing_stays (hext : q.extensions = []) (honly : q.onlyTransformed = true)
    (target : Option Location) : ∀ (files : List Location) (report : Report),
    Run.Stays ShowsNothingNew (visitFiles host q source target files report)
  | [], _ => .pure _
  | f :: rest, _ => by
    rw [visitFiles, visitFile_clearing hext honly]
    refine .bind (.bind ?_ fun _ => .pure _) fun _ =>
      visitFiles_clearing_stays hext honly target rest _
    unfold startVisit clearOutput
    split_ifs
    · refine .bind .disk fun d => ?_
      split_ifs
      · refine .change (fun d d' h p hp => ?_) _
        obtain ⟨-, rfl⟩ := Disk.removeFile_eq_ok h
        exact (look_erase_cases d _ p).elim (fun hs => hs.trans hp) id
      · exact .pure _
    · exact .pure _

/-- A clearing visit removes the file at its output and nothing else. -/
theorem run_visitFile_clearing (source : Location) (hext : q.extensions = [])
    (honly : q.onlyTransformed = true) (hdry : q.dryRun = false) {f : Location} (h0 : f ≠ [])
    (hl : Location.Proper (target ++ f)) {s : Session}
    (hnot : s.disk.look (target ++ f) ≠ some .folder) :
    ∃ s', (visitFile host q source (some target) f).run.run s = (.ok .skipped, s') ∧
      ∀ p, s'.disk.look p = if p = target ++ f then none else s.disk.look p := by
  have hat : (Path.ofLocation (target ++ f)).resolve host.working = target ++ f :=
    Path.resolve_ofLocation hl.no_up host.working
  rw [visitFile_clearing hext honly, Run.run_bind, startVisit, if_pos (by simp [hdry]),
    clearOutput, Run.run_bind, Run.run_disk]
  simp only [Option.getD_some]
  cases hlook : s.disk.look (target ++ f) with
  | none =>
    have hentry : s.disk.hasEntry host.working (.ofLocation (target ++ f)) = false := by
      rw [Disk.hasEntry, Disk.entry?_eq_find? hl.no_up, hat, look_eq_none_iff.mp hlook]
      rfl
    rw [hentry]
    refine ⟨s, rfl, fun p => ?_⟩
    split_ifs with hp
    · rw [hp, hlook]
    · rfl
  | some x =>
    cases x with
    | folder => exact absurd hlook hnot
    | file c =>
      have hfind := look_eq_file_iff.mp hlook
      have hentry : s.disk.hasEntry host.working (.ofLocation (target ++ f)) = true := by
        rw [Disk.hasEntry, Disk.entry?_eq_find? hl.no_up, hat, hfind]
        rfl
      rw [if_pos hentry, Run.run_change, Disk.removeFile_of_look hl.no_up (hat ▸ hlook), hat]
      refine ⟨_, rfl, fun p => ?_⟩
      have hne : target ++ f ≠ [] := fun he => h0 (List.append_eq_nil_iff.mp he).2
      exact look_eraseFile hlook hne p

/-- **A clearing walk removes the file at the output of a file that it gets to.** -/
theorem look_visitFiles_clearing (hext : q.extensions = []) (honly : q.onlyTransformed = true)
    (hdry : q.dryRun = false) {f : Location} {rest : List Location} :
    ∀ {front : List Location} {s : Session} (report : Report),
      (∀ g ∈ front ++ [f], g ≠ [] ∧ Location.Proper (target ++ g) ∧
        s.disk.look (target ++ g) ≠ some .folder) →
      ((visitFiles host q source (some target) (front ++ f :: rest) report).run.run s).2.disk.look
        (target ++ f) = none
  | [], s, report, h => by
    obtain ⟨h0, hl, hnot⟩ := h f (by simp)
    obtain ⟨s', hr, hlook⟩ := run_visitFile_clearing source hext honly hdry h0 hl hnot
    rw [List.nil_append, visitFiles, Run.run_bind, hr]
    exact (visitFiles_clearing_stays hext honly _ rest _ s').disk _ (by rw [hlook, if_pos rfl])
  | g :: front, s, report, h => by
    obtain ⟨h0, hl, hnot⟩ := h g (by simp)
    obtain ⟨s', hr, hlook⟩ := run_visitFile_clearing source hext honly hdry h0 hl hnot
    rw [List.cons_append, visitFiles, Run.run_bind, hr]
    refine look_visitFiles_clearing hext honly hdry _ fun k hk => ?_
    obtain ⟨hk0, hkl, hknot⟩ := h k (List.mem_cons_of_mem _ hk)
    refine ⟨hk0, hkl, ?_⟩
    rw [hlook]
    split_ifs
    · simp
    · exact hknot

/-! ### The exact condition -/

/-- A file of the source stands where a file of the source is put, and a walk gets there:
no smaller file is put where a folder is. -/
def Overwrites (source target : Location) (disk : Disk) : Prop :=
  ∃ f c r c', disk.look (source ++ f) = some (.file c) ∧
    disk.look (source ++ r) = some (.file c') ∧ target ++ f = source ++ r ∧
    ∀ g b, g < f → disk.look (source ++ g) = some (.file b) →
      disk.look (target ++ g) ≠ some .folder

/-- A source that was backed up last and a target that is there need no preparation. -/
theorem run_preparation_ready {s : Session} (hlast : s.last = some source)
    (htarget : target.Proper) (hfolder : s.disk.look target = some .folder) :
    (preparation host root q source (some target)).run.run s = (.ok none, s) := by
  by_cases hdry : q.dryRun = true
  · exact run_preparation_dry hdry s
  · have hat : (Path.ofLocation target).resolve host.working = target :=
      Path.resolve_ofLocation htarget.no_up host.working
    rw [run_preparation (by simpa using hdry), run_backUp_again hlast]
    simp only
    rw [Disk.makeFolders_of_look htarget.no_up (by rw [hat, hfolder])]
    simp only [Except.mapError, Except.map, Option.map_none]
    rw [← hlast]

/-- **The clearing run loses the file.** -/
theorem look_afterRun_clearing (root : Path) {s : Session} (hdisk : s.disk.Proper)
    (htarget : target.Proper) (hf : folderOf host q.folder = .ok source)
    (ht : targetOf host q source = .ok (some target)) (hlast : s.last = some source)
    (hext : q.extensions = []) (honly : q.onlyTransformed = true) (hdry : q.dryRun = false)
    (hover : Overwrites source target s.disk) :
    ∃ r c, s.disk.look (source ++ r) = some (.file c) ∧
      (afterRun host root q s).disk.look (source ++ r) = none := by
  obtain ⟨f, c, r, c', hfile, hother, heq, hreach⟩ := hover
  obtain ⟨-, -, hne⟩ := targetOf_eq_some ht
  refine ⟨r, c', hother, ?_⟩
  have h0 : f ≠ [] := by
    rintro rfl
    by_cases hr : r = []
    · exact hne (by simpa [hr] using heq)
    · rw [List.append_nil] at hfile
      rw [look_below_of_not_folder hr (by simp [hfile])] at hother
      cases hother
  have hsource : s.disk.look source = some .folder := look_above h0 (by simp [hfile])
  have hfolder : s.disk.look target = some .folder := look_above h0 (by simp [heq, hother])
  obtain ⟨entries, he⟩ := look_eq_folder_iff.mp hsource
  obtain ⟨front, rest, hsplit⟩ := List.append_of_mem ((mem_files_iff_below he).mpr ⟨c, hfile⟩)
  have hsorted := files_sorted (folder entries)
  rw [hsplit] at hsorted
  rw [afterRun, (run_transformFolder_prepared hf he ht
    (run_preparation_ready hlast htarget hfolder)).2, hsplit, ← heq]
  refine look_visitFiles_clearing hext honly hdry _ fun g hg => ?_
  have hmem : g ∈ front ++ f :: rest := by
    rw [List.append_cons]
    exact List.mem_append_left _ hg
  have hlisted : g ∈ (folder entries).files := hsplit ▸ hmem
  refine ⟨ne_nil_of_mem_files hlisted,
    htarget.append (hdisk.of_mem_files he hlisted).of_append_right, ?_⟩
  rcases List.mem_append.mp hg with hg | hg
  · obtain ⟨b, hb⟩ := (mem_files_iff_below he).mp hlisted
    exact hreach g b ((lt_iff_mem_front hsorted hmem).mpr hg) hb
  · rw [List.mem_singleton.mp hg, heq, hother]
    simp

/-- A walk that comes to an output that is a folder leaves the disk as it is then. -/
theorem run_visitFiles_blocked (hdry : q.dryRun = false) {front rest : List Location}
    {g : Location} {s : Session} (report : Report) (hl : Location.Proper (target ++ g))
    (h : ((visitFiles host q source (some target) front report).run.run s).2.disk.look
      (target ++ g) = some .folder) :
    ((visitFiles host q source (some target) (front ++ g :: rest) report).run.run s).2.disk =
      ((visitFiles host q source (some target) front report).run.run s).2.disk := by
  rw [visitFiles_append, Run.run_bind]
  generalize (visitFiles host q source (some target) front report).run.run s = walked at h ⊢
  rcases walked with ⟨e | report', s'⟩
  · rfl
  · obtain ⟨e, he⟩ := run_visitFile_blocked host source hdry hl h
    dsimp only
    rw [visitFiles, Run.run_bind, he]

/-- The preparation for a source that was backed up last loses nothing. -/
theorem keepsShown_preparation (host : Host) (root : Path) (q : Request) {s : Session}
    (hlast : s.last = some source) (htarget : target.Proper) (outputs : Location → Prop) :
    KeepsShown outputs s.disk
      ((preparation host root q source (some target)).run.run s).2.disk := by
  by_cases hdry : q.dryRun = true
  · rw [run_preparation_dry hdry]
    exact fun _ _ _ h => h
  · rw [run_preparation (by simpa using hdry), run_backUp_again hlast]
    intro p x _ hp
    rcases Disk.makeFolders_grownTo s.disk host.working (p := .ofLocation target) htarget.no_up p
      with hsame | ⟨-, hnone, -⟩
    · exact hsame.trans hp
    · rw [hnone] at hp
      cases hp

/-- A run that comes to an output that is a folder loses no more than the files at the
outputs before it. -/
theorem keepsShown_afterRun_blocked (root : Path) {s : Session} {entries : List (Text × Entry)}
    {front rest : List Location} {g : Location} (hdry : q.dryRun = false) (htarget : target.Proper)
    (hf : folderOf host q.folder = .ok source) (ht : targetOf host q source = .ok (some target))
    (hlast : s.last = some source) (he : s.disk.find? source = some (.folder entries))
    (hsplit : (folder entries).files = front ++ g :: rest)
    (hproper : ∀ f ∈ front ++ g :: rest, Location.Proper (target ++ f))
    (hfolder : s.disk.look (target ++ g) = some .folder) :
    KeepsShown (OutputOf target front) s.disk (afterRun host root q s).disk := by
  have hkeep := keepsShown_preparation host root q hlast htarget (OutputOf target front)
  cases hp : (preparation host root q source (some target)).run.run s with
  | mk result prepared =>
    rw [hp] at hkeep
    cases result with
    | error e => rwa [afterRun, run_transformFolder hf he ht, hp]
    | ok backup =>
      have hwalk : Within (KeepsShown (OutputOf target front)) prepared ((visitFiles host q
          source (some target) front ⟨[], [], [], backup, q.dryRun⟩).run.run prepared).2 :=
        visitFiles_stays _ (fun f hmem => visitAllowed_keepsShown
          (hproper f (List.mem_append_left _ hmem)) (fun _ => ⟨f, hmem, rfl⟩) _) prepared
      have hdone := trans_of (KeepsShown (OutputOf target front)) hkeep hwalk.disk
      rwa [afterRun, (run_transformFolder_prepared hf he ht hp).2, hsplit,
        run_visitFiles_blocked hdry _ (hproper g (by simp)) (hdone.folder hfolder)]

/-- **If no walk gets to a file of the source, the source is left alone.** -/
theorem keepsBelow_of_not_overwrites {s : Session} (hdisk : s.disk.Proper)
    (htarget : target.Proper) (hf : folderOf host q.folder = .ok source)
    (ht : targetOf host q source = .ok (some target)) (hlast : s.last = some source)
    (hnot : ¬ Overwrites source target s.disk) :
    KeepsBelow source s.disk (afterRun host root q s).disk := by
  by_cases hfind : q.dryRun = false ∧ ∃ entries, s.disk.find? source = some (.folder entries) ∧
      ∃ g ∈ (folder entries).files, s.disk.look (target ++ g) = some .folder
  · -- the walk stops at the first such `g`, and no file before it meets the source
    obtain ⟨hdry, entries, he, g', hg', hfolder'⟩ := hfind
    have hsome : ((folder entries).files.find? fun g =>
        decide (s.disk.look (target ++ g) = some .folder)).isSome :=
      List.find?_isSome.mpr ⟨g', hg', decide_eq_true hfolder'⟩
    obtain ⟨g, hg⟩ := Option.isSome_iff_exists.mp hsome
    obtain ⟨hfolder, front, rest, hsplit, hfront⟩ := List.find?_eq_some_iff_append.mp hg
    rw [decide_eq_true_eq] at hfolder
    have hsorted := files_sorted (folder entries)
    rw [hsplit] at hsorted
    have hlisted : ∀ f ∈ front ++ g :: rest, Location.Proper (target ++ f) := fun f hmem =>
      htarget.append (hdisk.of_mem_files he (hsplit ▸ hmem)).of_append_right
    have hbelow := keepsShown_afterRun_blocked root hdry htarget hf ht hlast he hsplit
      hlisted hfolder
    intro r c hr
    rw [← look_eq_file_iff] at hr ⊢
    refine hbelow _ _ ?_ hr
    rintro ⟨f, hmem, hout⟩
    refine absurd ?_ hnot
    obtain ⟨b, hb⟩ := (mem_files_iff_below he).mp (hsplit ▸ List.mem_append_left _ hmem)
    refine ⟨f, b, r, c, hb, hr, hout.symm, fun g' b' hlt hb' => ?_⟩
    have hmem' : g' ∈ front ++ g :: rest := hsplit ▸ (mem_files_iff_below he).mpr ⟨b', hb'⟩
    have hfg : f < g := (lt_iff_mem_front hsorted (List.mem_append_left _ hmem)).mpr hmem
    simpa using hfront g' ((lt_iff_mem_front hsorted hmem').mp (lt_trans hlt hfg))
  · refine keepsBelow_afterRun hdisk htarget hf ht (fun _ h => absurd hlast h)
      fun hdry f c r c' hfile hother heq => ?_
    refine hnot ⟨f, c, r, c', hfile, hother, heq, fun g b hlt hb hfolder => hfind ⟨hdry, ?_⟩⟩
    have hsource : s.disk.look source = some .folder :=
      look_above (fun h0 => List.not_lt_nil g (h0 ▸ hlt)) (by simp [hfile] : _ ≠ none)
    obtain ⟨entries, he⟩ := look_eq_folder_iff.mp hsource
    exact ⟨entries, he, g, (mem_files_iff_below he).mpr ⟨b, hb⟩, hfolder⟩

/-- **When an extraction leaves its source alone.** Every file below the source is there
afterwards with its content, whether the run answers or fails, if the run is dry, or if
no file of the source stands at an output and the snapshot, where one is taken, spares
the source. For a source that was backed up last, so that no snapshot is taken, all runs
leave it alone exactly if no walk gets to a file of the source that stands at an
output. -/
theorem extraction_keeps_source_iff (host : Host) (root : Path) (q : Request)
    (source target : Location) (s : Session) (hworking : host.working.Proper)
    (hhome : host.ProperHomes) (hdisk : s.disk.Proper) (hf : folderOf host q.folder = .ok source)
    (ht : targetOf host q source = .ok (some target)) :
    ((q.dryRun = false → OutputsApart source target s.disk ∧
        (s.last ≠ some source → SparesSource host s.disk source root)) →
      KeepsBelow source s.disk (afterRun host root q s).disk) ∧
    (s.last = some source →
      ((∀ extensions onlyTransformed dryRun, KeepsBelow source s.disk
        (afterRun host root { q with extensions, onlyTransformed, dryRun } s).disk) ↔
      ¬ Overwrites source target s.disk)) := by
  have htarget := proper_of_targetOf hworking hhome ht
  refine ⟨fun h => ?_, fun hlast => ⟨fun h hover => ?_, fun hnot _ _ _ => ?_⟩⟩
  · exact keepsBelow_afterRun hdisk htarget hf ht (fun hdry => (h hdry).2) fun hdry => (h hdry).1
  · obtain ⟨r, c, hr, hlost⟩ := look_afterRun_clearing root
      (q := { q with extensions := [], onlyTransformed := true, dryRun := false })
      hdisk htarget hf ht hlast rfl rfl rfl hover
    have hkept := look_eq_file_iff.mpr (h [] true false r c (look_eq_file_iff.mp hr))
    rw [hlost] at hkept
    cases hkept
  · exact keepsBelow_of_not_overwrites hdisk htarget hf ht hlast hnot

/-- A folder `src` with a file and, in a folder of the same name, another one. -/
def nestedSource : Disk :=
  .folder [("src".toList, .folder [("a.txt".toList, .file [49]),
    ("src".toList, .folder [("a.txt".toList, .file [50])])])]

/-- Asks for the student text beside the source. -/
def studentAbove : Request :=
  ⟨"src".toList, some ".".toList, [".cs".toList], ⟨.student, none, false⟩, false, false⟩

/-- The inner file is put where the outer one is. A first run leaves the content of the inner
file there, and not all later runs leave the source alone. -/
theorem extraction_keeps_source_iff_nestedSource :
    (afterRun (.bare [] []) ⟨.working, ["bk".toList]⟩ studentAbove
      ⟨nestedSource, none, []⟩).disk.look ["src".toList, "a.txt".toList] = some (.file [50]) ∧
    ¬ ∀ extensions onlyTransformed dryRun, KeepsBelow ["src".toList] nestedSource
      (afterRun (.bare [] []) ⟨.working, ["bk".toList]⟩
        { studentAbove with extensions, onlyTransformed, dryRun }
        ⟨nestedSource, some ["src".toList], []⟩).disk := by
  have hdisk : nestedSource.Proper := proper_of_contents (by unfold Location.Proper; decide +kernel)
  have he : nestedSource.find? ["src".toList] = some (.folder [("a.txt".toList, .file [49]),
    ("src".toList, .folder [("a.txt".toList, .file [50])])]) := rfl
  have hfree : ∀ g ∈ (Entry.folder [("a.txt".toList, .file [49]),
      ("src".toList, .folder [("a.txt".toList, .file [50])])]).files,
      nestedSource.look g ≠ some .folder := by decide +kernel
  refine ⟨by decide +kernel, fun h => ?_⟩
  have hnot := ((extraction_keeps_source_iff (.bare [] []) ⟨.working, ["bk".toList]⟩
    studentAbove ["src".toList] [] ⟨nestedSource, some ["src".toList], []⟩
    (by simp [Host.bare, Location.Proper]) (Host.bare_properHomes _ (by simp [Location.Proper]))
    hdisk rfl rfl).2 rfl).mp h
  exact hnot ⟨["src".toList, "a.txt".toList], [50], ["a.txt".toList], [49], by decide +kernel,
    by decide +kernel, rfl, fun g c _ hg => hfree g ((mem_files_iff_below he).mpr ⟨c, hg⟩)⟩

end Handout
