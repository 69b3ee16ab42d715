/-
# A completed snapshot

A snapshot that answers has refused a backup folder inside the source, removed what
was at its place, made the folders on the way there and copied the source. The copy
succeeds only if the source is still there and nothing is at the place, so the place
lies neither at or above the source nor, by the refusal, inside it. What is removed and
what is made is therefore apart from the source, and the copy shows what the source
shows.

This needs a backup folder that is written without a leading `~`, since the refusal
looks elsewhere if there is one, and without double dots, since folders that the path
only passes through would be made as well. A path is written without single dots, so
`./~` has a leading `~` too.

Key definitions: `snapshotLocation`, `Copied`.
Key theorems: `snapshot_eq_ok`, `copied_of_snapshot`, `Copied.look_source`,
`snapshot_is_exact_copy`.
-/
import Handout.Proofs.Running

namespace Handout

open Entry

variable {host : Host} {source : Location} {root : Path}

/-- Where the snapshot of a source goes. -/
def snapshotLocation (host : Host) (root : Path) (source : Location) : Location :=
  (snapshotPlace root source).resolve host.working

/-! ### What a snapshot does when it answers -/

theorem fill_eq_ok {s s' : Session} {place : Path}
    (h : (fill host source root).run.run s = (.ok place, s')) :
    place = snapshotPlace root source ∧
      (s.disk.makeFolders host.working (snapshotPlace root source).parent).2.copyTree
        host.working source (snapshotPlace root source) host.brokenCopy = (.ok (), s'.disk) ∧
      s'.last = s.last ∧
      s'.log = s.log ++ [.backedUp source.text (snapshotPlace root source).text] := by
  rw [fill] at h
  obtain ⟨_, s₁, hmade, h⟩ := Run.bind_eq_ok h
  obtain ⟨_, s₂, hcopied, h⟩ := Run.bind_eq_ok h
  rw [Run.run_act, Prod.mk.injEq] at hmade
  obtain ⟨-, rfl⟩ := hmade
  obtain ⟨disk, hcopy, rfl⟩ := Run.act_eq_ok hcopied
  cases h
  exact ⟨rfl, hcopy, rfl, rfl⟩

theorem fill_eq_error {s s' : Session} {e : SnapshotError}
    (h : (fill host source root).run.run s = (.error e, s')) : s'.log = s.log := by
  rw [fill, Run.run_bind, Run.run_act] at h
  cases hm : (s.disk.makeFolders host.working (snapshotPlace root source).parent).1 with
  | error e => rw [hm] at h; cases h; rfl
  | ok _ =>
    rw [hm] at h
    simp only [Except.mapError, Run.run_bind, Run.run_act] at h
    cases hc : ((s.disk.makeFolders host.working (snapshotPlace root source).parent).2.copyTree
        host.working source (snapshotPlace root source) host.brokenCopy).1 with
    | error e => rw [hc] at h; cases h; rfl
    | ok _ => rw [hc] at h; cases h

/-- A snapshot that fails does not tell of a copy. -/
theorem snapshot_eq_error {shown : Text} {s s' : Session} {e : SnapshotError}
    (h : (snapshot host source root shown).run.run s = (.error e, s')) :
    ∃ told, s'.log = s.log ++ told ∧ ∀ a b, .backedUp a b ∉ told := by
  by_cases hin : liesInside host root source = some false
  · rw [run_snapshot hin] at h
    split_ifs at h
    · dsimp only at h
      cases hr : s.disk.removeTree host.working (snapshotPlace root source) with
      | error e' =>
        rw [hr] at h
        cases h
        exact ⟨_, rfl, by simp⟩
      | ok disk =>
        rw [hr] at h
        exact ⟨_, fill_eq_error h, by simp⟩
    · exact ⟨[], by simp [fill_eq_error h], by simp⟩
  · have hs : s' = s := by
      unfold snapshot at h
      split at h
      · cases h; rfl
      · cases h; rfl
      · exact absurd (by assumption) hin
    exact ⟨[], by simp [hs], by simp⟩

/-- **What a snapshot does when it answers.** It was not refused, what was at its place
is removed, folders are made, and the source is copied; the log tells it. -/
theorem snapshot_eq_ok {shown : Text} {s s' : Session} {place : Path}
    (h : (snapshot host source root shown).run.run s = (.ok place, s')) :
    liesInside host root source = some false ∧ place = snapshotPlace root source ∧
      ((cleared host s.disk source root).makeFolders host.working
        (snapshotPlace root source).parent).2.copyTree
          host.working source (snapshotPlace root source) host.brokenCopy = (.ok (), s'.disk) ∧
      s'.last = s.last ∧
      ∃ told, s'.log = s.log ++ told ∧
        .backedUp source.text (snapshotPlace root source).text ∈ told := by
  have hin : liesInside host root source = some false := by
    unfold snapshot at h
    split at h
    · cases h
    · cases h
    · assumption
  refine ⟨hin, ?_⟩
  rw [run_snapshot hin] at h
  unfold cleared
  rcases removal_cases hin s.disk with ⟨he, hr⟩ | ⟨he, hr, e, hf⟩ | ⟨he, l, hr, hf⟩
  · rw [he] at h
    rw [hr]
    obtain ⟨h1, h2, h3, h4⟩ := fill_eq_ok h
    exact ⟨h1, h2, h3, _, h4, by simp⟩
  · rw [he, hf] at h
    cases h
  · rw [he, hf] at h
    rw [hr]
    obtain ⟨h1, h2, h3, h4⟩ := fill_eq_ok h
    refine ⟨h1, h2, h3, _, h4.trans (List.append_assoc ..), by simp⟩

/-! ### The copy and what is around it -/

/-- The second disk has a copy of the source at the place of its snapshot. The place is
apart from the source, and besides the copy only folders on the way to it are new. -/
structure Copied (host : Host) (root : Path) (source : Location) (before after : Disk) : Prop where
  not_inside : ¬ source <+: snapshotLocation host root source
  not_above : ¬ snapshotLocation host root source <+: source
  look_copy : ∀ r, after.look (snapshotLocation host root source ++ r) = before.look (source ++ r)
  look_other : ∀ p, ¬ snapshotLocation host root source <+: p →
    after.look p = before.look p ∨
      (p <+: root.resolve host.working ∧ before.look p = none ∧ after.look p = some .folder)

theorem snapshotLocation_eq (hs : source.Proper) (h0 : source ≠ []) :
    snapshotLocation host root source = root.resolve host.working ++ [source.name] := by
  have hname := hs _ (Location.name_mem h0)
  exact Path.resolve_child hname.1 hname.2 host.working

theorem snapshotPlace_names (hs : source.Proper) (h0 : source ≠ []) :
    (snapshotPlace root source).names = root.names ++ [source.name] := by
  rw [snapshotPlace, Path.child, if_neg (hs _ (Location.name_mem h0)).1]

theorem snapshotPlace_no_up (hs : source.Proper) (h0 : source ≠ []) (hup : upName ∉ root.names) :
    upName ∉ (snapshotPlace root source).names := by
  rw [snapshotPlace_names hs h0, List.mem_append, List.mem_singleton, not_or]
  exact ⟨hup, fun h => (hs _ (Location.name_mem h0)).2 h.symm⟩

/-- The folder above the place is the backup folder. -/
theorem resolve_parent_snapshotPlace (hs : source.Proper) (h0 : source ≠ []) (working : Location) :
    (snapshotPlace root source).parent.resolve working = root.resolve working := by
  have hp : (snapshotPlace root source).parent = root := by
    rw [Path.parent, snapshotPlace_names hs h0, List.dropLast_concat, snapshotPlace, Path.child,
      if_neg (hs _ (Location.name_mem h0)).1]
  rw [hp]

/-- The disk that is cleared for a snapshot differs at its place at most. -/
theorem look_cleared (disk : Disk) {p : Location} (h : ¬ snapshotLocation host root source <+: p) :
    (cleared host disk source root).look p = disk.look p := by
  unfold cleared
  cases hp : removedPlace host disk source root with
  | none => rfl
  | some place =>
    rw [snapshotLocation, ← Disk.locate_eq_resolve (removedPlace_eq_some hp).2] at h
    exact look_erase_off disk _ _ h

/-- What is below one of two locations that are apart is not below the other. -/
theorem not_prefix_append {a b : Location} (h : ¬ a <+: b) (h' : ¬ b <+: a) (r : Location) :
    ¬ a <+: b ++ r := by
  intro hr
  rcases List.prefix_or_prefix_of_prefix hr (List.prefix_append b r) with hp | hp
  · exact h hp
  · exact h' hp

/-- **A completed snapshot is a copy.** -/
theorem copied_of_snapshot {shown : Text} {s s' : Session} {place : Path}
    (h : (snapshot host source root shown).run.run s = (.ok place, s')) (hs : source.Proper)
    (hup : upName ∉ root.names) (htilde : root.expandHome host.homeOf = some root) :
    Copied host root source s.disk s'.disk := by
  obtain ⟨hin, -, hcopy, -⟩ := snapshot_eq_ok h
  have hroot := not_prefix_of_liesInside hin htilde
  have h0 : source ≠ [] := by
    rintro rfl
    exact hroot List.nil_prefix
  have hplace : upName ∉ (snapshotPlace root source).names := snapshotPlace_no_up hs h0 hup
  have hparent : upName ∉ (snapshotPlace root source).parent.names :=
    fun hm => hplace (List.mem_of_mem_dropLast hm)
  set made := ((cleared host s.disk source root).makeFolders host.working
    (snapshotPlace root source).parent).2 with hmade
  have hgrown : Disk.GrownTo (root.resolve host.working) (cleared host s.disk source root)
      made := by
    have := Disk.makeFolders_grownTo (cleared host s.disk source root) host.working hparent
    rwa [resolve_parent_snapshotPlace hs h0] at this
  obtain ⟨here, entries, there, hhere, hentries, hthere, hnone, -, hafter⟩ :=
    Disk.copyTree_eq_ok hcopy
  have hhere : here = source :=
    (Disk.locate_eq_resolve hhere).trans
      (Path.resolve_ofLocation (fun hm => (hs _ hm).2 rfl) host.working)
  have hl : there = snapshotLocation host root source := Disk.locate_eq_resolve hthere
  subst hhere
  -- the source is still there when it is copied, and nothing is at the place
  have hnot : ¬ snapshotLocation host root here <+: here := hl ▸ not_prefix_of_free hnone hentries
  have hinside : ¬ here <+: snapshotLocation host root here := by
    rw [snapshotLocation_eq hs h0] at hnot ⊢
    intro hpre
    rcases List.prefix_concat_iff.mp hpre with he | hpre
    · exact hnot (he ▸ List.prefix_refl _)
    · exact hroot hpre
  have hsource : ∀ r, made.look (here ++ r) = s.disk.look (here ++ r) := by
    intro r
    rw [← look_cleared s.disk (not_prefix_append hnot hinside r)]
    rcases hgrown (here ++ r) with hsame | ⟨hpre, -⟩
    · exact hsame
    · exact absurd ((List.prefix_append here r).trans hpre) hroot
  refine ⟨hinside, hnot, fun r => ?_, fun p hp => ?_⟩
  · -- the folder above the place is there, so the copy is put
    have habove := Disk.look_of_walk hplace (by simp [snapshotPlace_names hs h0])
      (Disk.walk_of_locate hthere)
    have hat : snapshotLocation host root here =
        (snapshotPlace root here).base host.working ++ (snapshotPlace root here).names.dropLast
          ++ [here.name] := by
      rw [snapshotLocation, Path.resolve_of_no_up hplace, snapshotPlace_names hs h0,
        List.dropLast_concat, List.append_assoc]
    rw [hafter, hl, hat, List.append_assoc _ [here.name], List.singleton_append,
      look_put_below _ _ _ _ habove, ← look_append hentries, hsource]
  · rw [hafter, look_put_off _ _ _ _ (hl ▸ hp), ← look_cleared s.disk hp]
    exact hgrown p

/-- A completed snapshot leaves the source as it was. -/
theorem Copied.look_source {before after : Disk} (h : Copied host root source before after)
    (hs : source.Proper) (r : Location) : after.look (source ++ r) = before.look (source ++ r) := by
  rcases h.look_other _ (not_prefix_append h.not_above h.not_inside r) with hr | ⟨hpre, -⟩
  · exact hr
  · have h0 : source ≠ [] := fun h0 => h.not_inside (h0 ▸ List.nil_prefix)
    have hsource := (List.prefix_append source r).trans hpre
    refine absurd (hsource.trans (List.prefix_append _ [source.name])) ?_
    rw [← snapshotLocation_eq hs h0]
    exact h.not_inside

/-- What is copied is a folder. -/
theorem look_source_of_snapshot {shown : Text} {s s' : Session} {place : Path}
    (h : (snapshot host source root shown).run.run s = (.ok place, s')) (hs : source.Proper)
    (hup : upName ∉ root.names) (htilde : root.expandHome host.homeOf = some root) :
    s.disk.look source = some .folder := by
  have hcopied := copied_of_snapshot h hs hup htilde
  obtain ⟨-, -, hcopy, -⟩ := snapshot_eq_ok h
  obtain ⟨here, entries, there, hhere, hentries, hthere, -, -, hafter⟩ :=
    Disk.copyTree_eq_ok hcopy
  obtain rfl : here = source :=
    (Disk.locate_eq_resolve hhere).trans (Path.resolve_ofLocation hs.no_up host.working)
  have hoff : ¬ there <+: here := Disk.locate_eq_resolve hthere ▸ hcopied.not_above
  have hsame := hcopied.look_source hs []
  rw [List.append_nil, hafter, look_put_off _ _ _ _ hoff] at hsame
  rw [← hsame]
  exact look_eq_folder_iff.mpr ⟨entries, hentries⟩

/-! ### From the paths as they are given -/

/-- A path that is not written with a leading `~` asks for no home folder. -/
theorem Path.expandHome_eq_self {p : Path} (h : p.text.head? ≠ some '~')
    (homeOf : Text → Option Location) : p.expandHome homeOf = some p := by
  obtain ⟨start, names⟩ := p
  unfold Path.expandHome
  split
  · rename_i account r hstart hnames
    dsimp only at hstart hnames
    subst hstart hnames
    exact absurd (by cases r <;> rfl) h
  · rfl

/-- **A snapshot that answers is an exact copy.** The place it answers leads to a folder of
the name of the source below the backup folder. There stands what stood in the source
before, folders and files with their contents, and nothing else; the source is as it was;
and everywhere else the disk is as it was, but for folders on the way to the place where
there was nothing. -/
theorem snapshot_is_exact_copy (host : Host) (folder : Text) (root : Path) (shown : Text)
    (s s' : Session) (place : Path) (hworking : host.working.Proper)
    (htilde : root.text.head? ≠ some '~') (hup : upName ∉ root.names)
    (h : (snapshot host ((Path.parse folder).resolve host.working) root shown).run.run s =
      (.ok place, s')) :
    let source := (Path.parse folder).resolve host.working
    let copy := root.resolve host.working ++ [source.name]
    s'.disk.locate host.working place = .ok copy ∧ s.disk.look source = some .folder ∧
      (∀ r, s'.disk.look (copy ++ r) = s.disk.look (source ++ r)) ∧
      (∀ r, s'.disk.look (source ++ r) = s.disk.look (source ++ r)) ∧
      ∀ p, ¬ copy <+: p → s'.disk.look p = s.disk.look p ∨
        (p <+: copy ∧ s.disk.look p = none ∧ s'.disk.look p = some .folder) := by
  intro source copy
  have hs : source.Proper := Path.resolve_proper hworking (by simp [Path.parse])
  have hhome := Path.expandHome_eq_self htilde host.homeOf
  have hfolder := look_source_of_snapshot h hs hup hhome
  have hcopied := copied_of_snapshot h hs hup hhome
  have h0 : source ≠ [] := by
    intro h0
    have hinside : ¬ source <+: snapshotLocation host root source := hcopied.not_inside
    rw [h0] at hinside
    exact hinside List.nil_prefix
  have hcopy : snapshotLocation host root source = copy := snapshotLocation_eq hs h0
  obtain ⟨-, rfl, -⟩ := snapshot_eq_ok h
  refine ⟨?_, hfolder, fun r => hcopy ▸ hcopied.look_copy r, hcopied.look_source hs,
    fun p hp => ?_⟩
  · have hlook := hcopied.look_copy []
    rw [List.append_nil, List.append_nil, hfolder] at hlook
    rw [← hcopy]
    exact Disk.locate_of_look (snapshotPlace_no_up hs h0 hup) (by
      rw [← snapshotLocation, hlook]
      exact Option.some_ne_none _)
  · rcases hcopied.look_other p (hcopy ▸ hp) with hsame | ⟨hpre, hnone, hnew⟩
    · exact .inl hsame
    · exact .inr ⟨hpre.trans (List.prefix_append _ _), hnone, hnew⟩

/-- A folder `src` in the working folder `w`, and beside it a backup folder with an older
snapshot. -/
def olderCopy : Disk :=
  .folder [("w".toList, .folder [
    ("src".toList, .folder [("a.txt".toList, .file [49]), ("sub".toList, .folder [])]),
    ("bk".toList, .folder [("src".toList, .folder [("old.txt".toList, .file [50])])])])]

/-- The file of the older snapshot is gone, and the empty folder is copied. -/
theorem snapshot_is_exact_copy_olderCopy : ∃ s',
    (snapshot (.bare ["w".toList] []) ((Path.parse "../w/src".toList).resolve ["w".toList])
        ⟨.working, ["bk".toList]⟩ "bk".toList).run.run ⟨olderCopy, none, []⟩ =
      (.ok ⟨.working, ["bk".toList, "src".toList]⟩, s') ∧
      s'.disk.look ["w".toList, "bk".toList, "src".toList, "old.txt".toList] = none ∧
      s'.disk.look ["w".toList, "bk".toList, "src".toList, "sub".toList] = some .folder ∧
      s'.disk.look ["w".toList, "src".toList, "a.txt".toList] = some (.file [49]) := by
  generalize hrun : (snapshot (.bare ["w".toList] [])
    ((Path.parse "../w/src".toList).resolve ["w".toList]) ⟨.working, ["bk".toList]⟩
    "bk".toList).run.run ⟨olderCopy, none, []⟩ = out
  obtain ⟨answer, s'⟩ := out
  have hanswer : answer = .ok ⟨.working, ["bk".toList, "src".toList]⟩ :=
    (congrArg Prod.fst hrun).symm.trans rfl
  rw [hanswer] at hrun ⊢
  obtain ⟨-, -, hcopy, hsource, -⟩ := snapshot_is_exact_copy (.bare ["w".toList] [])
    "../w/src".toList ⟨.working, ["bk".toList]⟩ "bk".toList ⟨olderCopy, none, []⟩ s'
    ⟨.working, ["bk".toList, "src".toList]⟩ (by unfold Location.Proper; decide) (by decide)
    (by decide) hrun
  exact ⟨s', rfl, hcopy ["old.txt".toList], hcopy ["sub".toList], hsource ["a.txt".toList]⟩

end Handout
