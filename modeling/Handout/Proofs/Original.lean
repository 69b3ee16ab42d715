/-
# The snapshot keeps the original

A session that runs over one folder again and again, always in place, takes one
snapshot of it at most: once it is completed the folder is the one that was backed up
last, and a later run goes straight to the files. A run in place changes nothing outside
the source (`ChangesWithin`), and the place of the snapshot is outside. So the copy stays
what the source was when the snapshot was taken (`snapshot_keeps_original`), whichever of
the runs fail and wherever they stop.

The runs before the snapshot matter only in that they leave a disk with names that a
path can follow (`proper_afterRun`).

Key definitions: `KeepsProper`, `ChangesWithin`, `InPlaceOn`, `afterRuns`,
`CompletesSnapshot`, `HoldsCopy`, `Guards`.
Key theorems: `proper_afterRun`, `Guards.passes`, `guards_of_completesSnapshot`,
`snapshot_keeps_original`.
-/
import Handout.Proofs.InPlace

namespace Handout

open Entry

variable {host : Host} {root : Path} {source : Location} {target : Option Location} {q : Request}

/-! ### Proper names are kept -/

/-- If the names on the first disk are proper, so are those on the second. -/
def KeepsProper (before after : Disk) : Prop :=
  before.Proper → after.Proper

instance : IsPreorder Disk KeepsProper where
  refl _ := id
  trans _ _ _ h h' := h' ∘ h

theorem Disk.Proper.put {disk new : Disk} {l : Location} (h : disk.Proper) (hnew : new.Proper)
    (hl : l.Proper) : Disk.Proper (put new disk l) := by
  intro p hp
  rcases look_put_cases new disk l p with hsame | ⟨r, rfl, hr⟩
  · exact h p (hsame ▸ hp)
  · exact hl.append (hnew r (hr ▸ hp))

theorem Disk.Proper.erase {disk : Disk} (h : disk.Proper) (l : Location) :
    Disk.Proper (disk.erase l) := by
  intro p hp
  rcases look_erase_cases disk l p with hsame | hnone
  · exact h p (hsame ▸ hp)
  · exact absurd hnone hp

theorem Disk.GrownTo.keepsProper {before after : Disk} {l : Location}
    (h : Disk.GrownTo l before after) (hl : l.Proper) : KeepsProper before after := by
  intro hbefore p hp
  rcases h p with hsame | ⟨hpre, -⟩
  · exact hbefore p (hsame ▸ hp)
  · exact hl.of_prefix hpre

theorem Disk.Proper.below {disk e : Disk} {l : Location} (h : disk.Proper)
    (he : disk.find? l = some e) : e.Proper := by
  intro p hp
  exact (h (l ++ p) (by rwa [look_append he])).of_append_right

theorem Path.parent_proper {p : Path} (hp : Location.Proper p.names) :
    Location.Proper p.parent.names :=
  hp.of_prefix (List.dropLast_prefix _)

/-- A visit to a file at a proper location. -/
theorem visitAllowed_keepsProper {l : Location} (hl : l.Proper) :
    VisitAllowed KeepsProper host q target (.ofLocation l) := by
  have hchanges : VisitAllowed (ChangesOutputs (· = l)) host q target (.ofLocation l) :=
    visitAllowed_changesOutputs hl.no_up (fun _ => by rfl) target
  refine hchanges.mono fun d d' h hd p hp => ?_
  rcases h p with hsame | ⟨rfl, -⟩ | ⟨-, -, _, rfl, hpre⟩
  · exact hd p (hsame ▸ hp)
  · exact hl
  · exact hl.of_prefix hpre

theorem snapshotPlace_proper (hs : source.Proper) (hroot : Location.Proper root.names) :
    Location.Proper (snapshotPlace root source).names := by
  unfold snapshotPlace Path.child
  split_ifs with h
  · exact hroot
  · have h0 : source ≠ [] := by
      rintro rfl
      exact h rfl
    exact hroot.append fun n hn => List.mem_singleton.mp hn ▸ hs _ (Location.name_mem h0)

/-- A snapshot keeps the names proper, whether it answers or fails. -/
theorem proper_afterSnapshot (hworking : host.working.Proper) (hroot : Location.Proper root.names)
    (htilde : root.expandHome host.homeOf = some root) (hs : source.Proper) {s : Session}
    (h : s.disk.Proper) (shown : Text) :
    (afterSnapshot host s source root shown).Proper := by
  have hplace := snapshotPlace_proper hs hroot
  have hparent := Path.parent_proper hplace
  have hcleared : (cleared host s.disk source root).Proper := by
    unfold cleared
    cases removedPlace host s.disk source root with
    | none => exact h
    | some place => exact h.erase place
  have hmade := (Disk.makeFolders_grownTo (cleared host s.disk source root) host.working
    hparent.no_up).keepsProper (Path.resolve_proper hworking hparent.nil_not_mem) hcleared
  rcases afterSnapshot_cases host s source root shown with ⟨ha, -⟩ | ha | ⟨hin, ha⟩
  · rwa [ha]
  · rwa [ha]
  · have hmeets := meetsItself_snapshotPlace hs htilde hin
    rw [ha]
    rcases copyTree_of_not_meets hs hmeets host.brokenCopy with hsame | ⟨entries, hentries, hput⟩
    · rwa [hsame]
    · rw [hput]
      exact hmade.put (hmade.below hentries) (Path.resolve_proper hworking hplace.nil_not_mem)

theorem targetOf_keepsMarkup (host : Host) (source : Location)
    (hm : q.options.mode.keepsMarkup = true) : targetOf host q source = .ok none := if_pos hm

/-- **A run in place keeps the names proper**, also if it fails. -/
theorem proper_afterRun (hworking : host.working.Proper) (hroot : Location.Proper root.names)
    (htilde : root.expandHome host.homeOf = some root)
    (hm : q.options.mode.keepsMarkup = true) {s : Session} (h : s.disk.Proper) :
    (afterRun host root q s).disk.Proper := by
  rcases transformFolder_cases host root q s with ⟨e, he⟩ | ⟨source, entries, target, hf, he, -⟩
  · rwa [afterRun, he]
  · have ht := targetOf_keepsMarkup host source hm
    have hs : source.Proper := h source (by simp [look, he])
    -- once it is prepared the visits keep the names
    have hwalk : ∀ (prepared : Session) {backup}, prepared.disk.Proper →
        (preparation host root q source none).run.run s = (.ok backup, prepared) →
        (afterRun host root q s).disk.Proper := by
      intro prepared backup hprepared hp
      exact (within_of_passes hf he ht hp (fun f hmem => visitAllowed_keepsProper
        (h.of_mem_files he hmem)) .ended).disk hprepared
    have hsnapshot := proper_afterSnapshot hworking hroot htilde hs h root.text
    rw [afterSnapshot] at hsnapshot
    rcases preparation_inPlace_cases host root q source s with
      ⟨-, hp⟩ | ⟨-, s', ⟨e, hsnap, hp⟩ | ⟨place, hsnap, hp⟩⟩
    · exact hwalk s h hp
    · rw [hsnap] at hsnapshot
      rwa [afterRun, run_transformFolder hf he ht, hp]
    · rw [hsnap] at hsnapshot
      exact hwalk { s' with last := some source } hsnapshot hp

/-! ### Nothing outside the source changes -/

/-- What is neither below the source nor on the way to it is shown as before. -/
def ChangesWithin (source : Location) (before after : Disk) : Prop :=
  ∀ p, ¬ source <+: p → ¬ p <+: source → after.look p = before.look p

instance : IsPreorder Disk (ChangesWithin source) where
  refl _ _ _ _ := rfl
  trans _ _ _ h h' p hp hp' := (h' p hp hp').trans (h p hp hp')

/-- A visit in place to a file at a proper location. -/
theorem visitAllowed_changesWithin {f : Location} (h : Location.Proper (source ++ f)) :
    VisitAllowed (ChangesWithin source) host q none (.ofLocation (source ++ f)) := by
  have hchanges : VisitAllowed (ChangesOutputs (· = source ++ f)) host q none
      (.ofLocation (source ++ f)) := visitAllowed_changesOutputs h.no_up (fun _ => by rfl) none
  refine hchanges.mono fun d d' hd p hp hp' => hd.look_eq ?_
  rintro _ rfl hpre
  exact (List.prefix_or_prefix_of_prefix (List.prefix_append source f) hpre).elim hp hp'

/-! ### Once the snapshot is there -/

/-- The request is for a run in place over the source, however its folder is spelled. -/
def InPlaceOn (host : Host) (source : Location) (q : Request) : Prop :=
  folderOf host q.folder = .ok source ∧ q.options.mode.keepsMarkup = true

/-- The place of the snapshot holds what the source held on another disk: the same
folders and the same files with the same contents, and nothing else. -/
def HoldsCopy (host : Host) (root : Path) (source : Location) (original disk : Disk) : Prop :=
  ∀ r, (disk.entry? host.working (snapshotPlace root source)).bind (Entry.look · r) =
    original.look (source ++ r)

/-- What holds from the moment on at which the source is copied: it was backed up last,
and the place of its snapshot, which is apart from it, shows the original. -/
structure Guards (host : Host) (root : Path) (source : Location) (original : Disk)
    (s : Session) : Prop where
  last : s.last = some source
  proper_source : source.Proper
  proper_disk : s.disk.Proper
  not_inside : ¬ source <+: snapshotLocation host root source
  not_above : ¬ snapshotLocation host root source <+: source
  look_copy : ∀ r, s.disk.look (snapshotLocation host root source ++ r) =
    original.look (source ++ r)

theorem Guards.holdsCopy {original : Disk} {s : Session} (h : Guards host root source original s)
    (hroot : Location.Proper root.names) : HoldsCopy host root source original s.disk := by
  intro r
  rw [Disk.entry?_eq_find? (snapshotPlace_proper h.proper_source hroot).no_up, ← look_append_eq]
  exact h.look_copy r

theorem Guards.of_within {original : Disk} {s s' : Session}
    (h : Guards host root source original s) (hproper : Within KeepsProper s s')
    (hwithin : Within (ChangesWithin source) s s') : Guards host root source original s' := by
  refine ⟨hwithin.last.trans h.last, h.proper_source, hproper.disk h.proper_disk, h.not_inside,
    h.not_above, fun r => ?_⟩
  rw [← h.look_copy]
  exact hwithin.disk _ (not_prefix_append h.not_inside h.not_above r)
    fun hp => h.not_above ((List.prefix_append _ r).trans hp)

/-- The visits of a run in place. -/
theorem Guards.visits {original : Disk} {s prepared s' : Session} {backup : Option Text}
    {entries : List (Text × Entry)} (hq : InPlaceOn host source q)
    (he : s.disk.find? source = some (.folder entries)) (hproper : s.disk.Proper)
    (hp : (preparation host root q source none).run.run s = (.ok backup, prepared))
    (h : Guards host root source original prepared) (hpass : Passes host root q s s') :
    Guards host root source original s' := by
  have ht := targetOf_keepsMarkup host source hq.2
  exact h.of_within
    (within_of_passes hq.1 he ht hp (fun f hf =>
      visitAllowed_keepsProper (hproper.of_mem_files he hf)) hpass)
    (within_of_passes hq.1 he ht hp (fun f hf =>
      visitAllowed_changesWithin (hproper.of_mem_files he hf)) hpass)

/-- A run without preparation tells of no snapshot. -/
theorem toldBy_of_skipped {s : Session} {entries : List (Text × Entry)}
    (hq : InPlaceOn host source q) (he : s.disk.find? source = some (.folder entries))
    (hproper : s.disk.Proper)
    (hp : (preparation host root q source none).run.run s = (.ok none, s)) :
    ∀ e ∈ toldBy host root q s, e.ofSnapshot = false := by
  obtain ⟨told, htold, hquiet⟩ := (within_of_passes hq.1 he
    (targetOf_keepsMarkup host source hq.2) hp
    (fun f hf => visitAllowed_keepsProper (hproper.of_mem_files he hf)) .ended).told
  rwa [toldBy_eq htold]

/-- **A later run keeps the copy** in all sessions that it passes, and tells of no
snapshot. -/
theorem Guards.passes {original : Disk} {s : Session} (h : Guards host root source original s)
    (hq : InPlaceOn host source q) :
    (∀ s', Passes host root q s s' → Guards host root source original s') ∧
      ∀ e ∈ toldBy host root q s, e.ofSnapshot = false := by
  have hp : (preparation host root q source none).run.run s = (.ok none, s) :=
    run_preparation_skipped (.inr h.last)
  refine ⟨fun s' hpass => ?_, ?_⟩
  · rcases hpass.cases with rfl | ⟨source', entries, target, hf, he, -⟩
    · exact h
    · obtain rfl : source = source' := by simpa [hq.1] using hf
      exact Guards.visits hq he h.proper_disk hp h hpass
  · rcases transformFolder_cases host root q s with ⟨e, he⟩ | ⟨source', entries, -, hf, he, -⟩
    · rw [toldBy_of_refused he]
      simp
    · obtain rfl : source = source' := by simpa [hq.1] using hf
      exact toldBy_of_skipped hq he h.proper_disk hp

/-! ### A series of runs -/

/-- The session that runs leave, one after another. -/
def afterRuns (host : Host) (root : Path) (qs : List Request) (s : Session) : Session :=
  qs.foldl (fun s q => afterRun host root q s) s

/-- A run completes its snapshot: it tells so. -/
def CompletesSnapshot (host : Host) (root : Path) (q : Request) (s : Session) : Prop :=
  ∃ folder place, .backedUp folder place ∈ toldBy host root q s

theorem proper_afterRuns (hworking : host.working.Proper) (hroot : Location.Proper root.names)
    (htilde : root.expandHome host.homeOf = some root) :
    ∀ (qs : List Request) {s : Session}, (∀ q ∈ qs, InPlaceOn host source q) → s.disk.Proper →
      (afterRuns host root qs s).disk.Proper
  | [], _, _, h => h
  | q :: qs, _, hq, h =>
    proper_afterRuns hworking hroot htilde qs (fun x hx => hq x (List.mem_cons_of_mem _ hx))
      (proper_afterRun hworking hroot htilde (hq q (List.mem_cons_self ..)).2 h)

theorem Guards.afterRuns {original : Disk} : ∀ (qs : List Request) {s : Session},
    (∀ q ∈ qs, InPlaceOn host source q) → Guards host root source original s →
      Guards host root source original (afterRuns host root qs s)
  | [], _, _, h => h
  | q :: qs, _, hq, h =>
    Guards.afterRuns qs (fun x hx => hq x (List.mem_cons_of_mem _ hx))
      ((h.passes (hq q (List.mem_cons_self ..))).1 _ .ended)

/-- **The run that completes the snapshot has the copy** in all sessions that it passes
once it is prepared. -/
theorem guards_of_completesSnapshot (hq : InPlaceOn host source q) {s s' : Session}
    (hproper : s.disk.Proper) (hworking : host.working.Proper)
    (hroot : Location.Proper root.names) (htilde : root.expandHome host.homeOf = some root)
    (hsnap : CompletesSnapshot host root q s) (hpass : Passes host root q s s') :
    Guards host root source s.disk s' := by
  obtain ⟨folder, place, htold⟩ := hsnap
  rcases transformFolder_cases host root q s with ⟨e, he⟩ | ⟨source', entries, -, hf, he, -⟩
  · rw [toldBy_of_refused he] at htold
    cases htold
  · obtain rfl : source = source' := by simpa [hq.1] using hf
    have hs : source.Proper := hproper source (by simp [look, he])
    rcases preparation_inPlace_cases host root q source s with
      ⟨-, hp⟩ | ⟨-, s₁, ⟨e, herr, hp⟩ | ⟨place, hok, hp⟩⟩
    · cases toldBy_of_skipped hq he hproper hp _ htold
    · obtain ⟨told, hlog, hnot⟩ := snapshot_eq_error herr
      have hrun : afterRun host root q s = s₁ := by
        rw [afterRun, run_transformFolder hq.1 he (targetOf_keepsMarkup host source hq.2), hp]
      rw [toldBy_eq (hrun ▸ hlog)] at htold
      exact absurd htold (hnot folder place)
    · have hcopied := copied_of_snapshot hok hs hroot.no_up htilde
      have hafter := proper_afterSnapshot hworking hroot htilde hs hproper root.text
      rw [afterSnapshot, hok] at hafter
      have hguards : Guards host root source s.disk { s₁ with last := some source } :=
        ⟨rfl, hs, hafter, hcopied.not_inside, hcopied.not_above, hcopied.look_copy⟩
      exact hguards.visits hq he hproper hp hpass

/-- **The snapshot keeps the original.** Take any series of runs in place over a source, of
which one, `q`, completes its snapshot. From then on, in that run and in all later ones,
at every file and also if the run fails, the place of the snapshot holds what the source
held when `q` began; and no later run tells of a snapshot. -/
theorem snapshot_keeps_original (host : Host) (root : Path) (source : Location) (s₀ : Session)
    (earlier later : List Request) (q : Request)
    (hcalls : ∀ x ∈ earlier ++ q :: later, InPlaceOn host source x) (hdisk : s₀.disk.Proper)
    (hworking : host.working.Proper) (hroot : Location.Proper root.names)
    (htilde : root.expandHome host.homeOf = some root)
    (hsnap : CompletesSnapshot host root q (afterRuns host root earlier s₀)) :
    let s := afterRuns host root earlier s₀
    (∀ s', Passes host root q s s' → HoldsCopy host root source s.disk s'.disk) ∧
      ∀ front x rest, later = front ++ x :: rest →
        let now := afterRuns host root (q :: front) s
        (∀ s', Passes host root x now s' → HoldsCopy host root source s.disk s'.disk) ∧
          ∀ e ∈ toldBy host root x now, e.ofSnapshot = false := by
  intro s
  have hq : InPlaceOn host source q := hcalls q (by simp)
  have hproper : s.disk.Proper :=
    proper_afterRuns hworking hroot htilde earlier (fun x hx => hcalls x (by simp [hx])) hdisk
  have hguards : ∀ s', Passes host root q s s' → Guards host root source s.disk s' :=
    fun s' => guards_of_completesSnapshot hq hproper hworking hroot htilde hsnap
  refine ⟨fun s' hpass => (hguards s' hpass).holdsCopy hroot, ?_⟩
  rintro front x rest rfl
  have hnow : Guards host root source s.disk (afterRuns host root front (afterRun host root q s)) :=
    Guards.afterRuns front (fun y hy => hcalls y (by simp [hy])) (hguards _ .ended)
  obtain ⟨hpass, hquiet⟩ := hnow.passes (q := x) (hcalls x (by simp))
  exact ⟨fun s' h => (hpass s' h).holdsCopy hroot, hquiet⟩

/-- Both runs stop at the second file. The first file is rewritten by then, and the copy
holds it as it was. -/
theorem snapshot_keeps_original_twoFiles :
    CompletesSnapshot (.bare [] []) ⟨.working, ["bk".toList]⟩ studentInPlace
        ⟨twoFiles, none, []⟩ ∧
      (afterRuns (.bare [] []) ⟨.working, ["bk".toList]⟩
        [studentInPlace, studentInPlace] ⟨twoFiles, none, []⟩).disk.look
          ["w".toList, "src".toList, "a.cs".toList] ≠
        twoFiles.look ["w".toList, "src".toList, "a.cs".toList] ∧
      HoldsCopy (.bare [] []) ⟨.working, ["bk".toList]⟩ ["w".toList, "src".toList] twoFiles
        (afterRuns (.bare [] []) ⟨.working, ["bk".toList]⟩
          [studentInPlace, studentInPlace] ⟨twoFiles, none, []⟩).disk := by
  have hdisk : twoFiles.Proper := proper_of_contents (by unfold Location.Proper; decide +kernel)
  have hq : InPlaceOn (.bare [] []) ["w".toList, "src".toList] studentInPlace :=
    ⟨by rfl, by rfl⟩
  have hsnap : CompletesSnapshot (.bare [] []) ⟨.working, ["bk".toList]⟩ studentInPlace
      ⟨twoFiles, none, []⟩ := ⟨"/w/src".toList, "bk/src".toList, by decide +kernel⟩
  refine ⟨hsnap, by decide +kernel, ?_⟩
  have h := snapshot_keeps_original (.bare [] []) ⟨.working, ["bk".toList]⟩
    ["w".toList, "src".toList] ⟨twoFiles, none, []⟩ [] [studentInPlace] studentInPlace
    (by simpa using hq) hdisk (by simp [Host.bare, Location.Proper])
    (by unfold Location.Proper; decide)
    rfl hsnap
  exact (h.2 [] studentInPlace [] rfl).1 _ .ended

end Handout
