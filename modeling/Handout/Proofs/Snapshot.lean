/-
# What a snapshot does to its source

A snapshot is refused when the backup folder lies inside the source, but what it
removes is the folder of the source's name below the backup folder. The refusal
does not look at that place: with the folder above the source as backup folder the
place is the source itself.

Whatever happens, files are lost only below the folder that is removed: making
folders changes no file and the copy goes to a place where there is nothing. So the
source is kept if no file in it lies below the removed folder. If the backup folder
is written without a leading `~`, the place lies at or above the source or apart
from it, never strictly inside; if it is at or above, all of the source is gone, the
copy finds no file there, and the condition is exact (`snapshot_keeps_source_iff`).

Key definitions: `removedPlace`, `afterSnapshot`, `KeepsBelow`, `SparesSource`.
Key theorems: `afterSnapshot_cases`, `keepsBelow_of_spares`,
`snapshot_keeps_source_iff`.
-/
import Handout.Folder.Snapshot
import Handout.Proofs.Disk

namespace Handout

/-! ### The stages of a snapshot -/

/-- The disk that a snapshot leaves, whether it answers or fails. -/
def afterSnapshot (host : Host) (s : Session) (source : Location) (root : Path) (shown : Text) :
    Disk :=
  ((snapshot host source root shown).run.run s).2.disk

/-- The location of the folder that a snapshot removes. -/
def removedPlace (host : Host) (disk : Disk) (source : Location) (root : Path) :
    Option Location :=
  match liesInside host root source, disk.locate host.working (snapshotPlace root source) with
  | some false, .ok place => if (disk.find? place).any Entry.isFolder then some place else none
  | _, _ => none

/-- The disk without the folder that a snapshot removes. -/
def cleared (host : Host) (disk : Disk) (source : Location) (root : Path) : Disk :=
  match removedPlace host disk source root with
  | some place => disk.erase place
  | none => disk

/-- The second half of a snapshot: the folders on the way to its place and the
copy. -/
def fill (host : Host) (source : Location) (root : Path) : Run SnapshotError Path := do
  Run.act .file (·.makeFolders host.working (snapshotPlace root source).parent)
  Run.act .file (·.copyTree host.working source (snapshotPlace root source) host.brokenCopy)
  Run.tell (.backedUp source.text (snapshotPlace root source).text)
  return snapshotPlace root source

/-- It leaves the disk with the folders made, or as the copy leaves it after that. -/
theorem fill_cases (host : Host) (s : Session) (source : Location) (root : Path) :
    let made := (s.disk.makeFolders host.working (snapshotPlace root source).parent).2
    let after := ((fill host source root).run.run s).2.disk
    after = made ∨ after =
      (made.copyTree host.working source (snapshotPlace root source) host.brokenCopy).2 := by
  intro made after
  have hafter : after = ((fill host source root).run.run s).2.disk := rfl
  rw [fill, Run.run_bind, Run.run_act] at hafter
  cases hm : (s.disk.makeFolders host.working (snapshotPlace root source).parent).1 with
  | error e =>
    rw [hm] at hafter
    exact .inl hafter
  | ok _ =>
    rw [hm] at hafter
    simp only [Except.mapError, Run.run_bind, Run.run_act] at hafter
    right
    cases hc : (made.copyTree host.working source (snapshotPlace root source)
        host.brokenCopy).1 with
    | error e =>
      rw [hc] at hafter
      exact hafter
    | ok _ =>
      rw [hc] at hafter
      exact hafter

/-- A snapshot that is not refused removes what is at its place and goes on with the
second half. -/
theorem run_snapshot {host : Host} {source : Location} {root : Path}
    (h : liesInside host root source = some false) (shown : Text) (s : Session) :
    (snapshot host source root shown).run.run s =
      if s.disk.hasEntry host.working (snapshotPlace root source) then
        let told := { s with
          log := s.log ++ [.removingSnapshot (snapshotPlace root source).text] }
        match s.disk.removeTree host.working (snapshotPlace root source) with
        | .ok disk => (fill host source root).run.run { told with disk := disk }
        | .error e => (.error (.file e), told)
      else (fill host source root).run.run s := by
  unfold snapshot
  rw [h]
  set told : Session := { s with
    log := s.log ++ [.removingSnapshot (snapshotPlace root source).text] } with htold
  show (if s.disk.hasEntry host.working (snapshotPlace root source) then
      Run.tell (.removingSnapshot (snapshotPlace root source).text) >>= fun _ =>
        Run.change .file (·.removeTree host.working (snapshotPlace root source)) >>= fun _ =>
          fill host source root
    else fill host source root : Run SnapshotError Path).run.run s = _
  split_ifs
  · show (Run.change .file (·.removeTree host.working (snapshotPlace root source)) >>= fun _ =>
      fill host source root : Run SnapshotError Path).run.run told = _
    rw [Run.run_bind, Run.run_change]
    cases s.disk.removeTree host.working (snapshotPlace root source) with
    | error e => rfl
    | ok disk => rfl
  · rfl

/-- There is nothing at the place of a snapshot, or a file, which is not removed, or a
folder, which is. -/
theorem removal_cases {host : Host} {source : Location} {root : Path}
    (h : liesInside host root source = some false) (disk : Disk) :
    (disk.hasEntry host.working (snapshotPlace root source) = false ∧
      removedPlace host disk source root = none) ∨
    (disk.hasEntry host.working (snapshotPlace root source) = true ∧
      removedPlace host disk source root = none ∧
        ∃ e, disk.removeTree host.working (snapshotPlace root source) = .error e) ∨
    (disk.hasEntry host.working (snapshotPlace root source) = true ∧
      ∃ l, removedPlace host disk source root = some l ∧
        disk.removeTree host.working (snapshotPlace root source) = .ok (disk.erase l)) := by
  unfold Disk.hasEntry Disk.entry? removedPlace Disk.removeTree
  rw [h]
  cases disk.locate host.working (snapshotPlace root source) with
  | error fault => exact .inl ⟨rfl, rfl⟩
  | ok l =>
    simp only
    cases disk.find? l with
    | none => exact .inl ⟨rfl, rfl⟩
    | some e =>
      cases e with
      | file c => exact .inr (.inl ⟨rfl, rfl, _, rfl⟩)
      | folder entries => exact .inr (.inr ⟨rfl, l, rfl, rfl⟩)

/-- **What a snapshot can do.** It leaves the disk as it was and removes nothing, or it
removes the folder at its place, makes folders, and may begin the copy. -/
theorem afterSnapshot_cases (host : Host) (s : Session) (source : Location) (root : Path)
    (shown : Text) :
    let made := ((cleared host s.disk source root).makeFolders host.working
      (snapshotPlace root source).parent).2
    let after := afterSnapshot host s source root shown
    (after = s.disk ∧ removedPlace host s.disk source root = none) ∨ after = made ∨
      (liesInside host root source = some false ∧ after =
        (made.copyTree host.working source (snapshotPlace root source) host.brokenCopy).2) := by
  simp only
  unfold cleared
  match hin : liesInside host root source with
  | none =>
    left
    rw [afterSnapshot, snapshot, hin]
    exact ⟨rfl, by simp [removedPlace, hin]⟩
  | some true =>
    left
    rw [afterSnapshot, snapshot, hin]
    exact ⟨rfl, by simp [removedPlace, hin]⟩
  | some false =>
    rw [afterSnapshot, run_snapshot hin]
    rcases removal_cases hin s.disk with ⟨he, hr⟩ | ⟨he, hr, e, hf⟩ | ⟨he, l, hr, hf⟩
    · rw [he, hr]
      exact .inr ((fill_cases host s source root).imp_right fun h => ⟨rfl, h⟩)
    · rw [he, hr, hf]
      exact .inl ⟨rfl, rfl⟩
    · rw [he, hr, hf]
      exact .inr ((fill_cases host _ source root).imp_right fun h => ⟨rfl, h⟩)

/-! ### The files of the source -/

/-- Every file below a location is still there with its content. -/
def KeepsBelow (source : Location) (before after : Disk) : Prop :=
  ∀ r c, before.find? (source ++ r) = some (.file c) → after.find? (source ++ r) = some (.file c)

/-- No file below the source lies below the folder that a snapshot removes. -/
def SparesSource (host : Host) (disk : Disk) (source : Location) (root : Path) : Prop :=
  ∀ place, removedPlace host disk source root = some place →
    ∀ r c, disk.find? (source ++ r) = some (.file c) → ¬ place <+: source ++ r

/-- There is no file below a location. -/
def Fileless (source : Location) (disk : Disk) : Prop :=
  ∀ r c, disk.find? (source ++ r) ≠ some (.file c)

/-- A snapshot that spares the source keeps its files. -/
theorem keepsBelow_of_spares {host : Host} {s : Session} {source : Location} {root : Path}
    (h : SparesSource host s.disk source root) (shown : Text) :
    KeepsBelow source s.disk (afterSnapshot host s source root shown) := by
  have hc : KeepsBelow source s.disk (cleared host s.disk source root) := by
    intro r c hr
    unfold cleared
    cases hp : removedPlace host s.disk source root with
    | none => exact hr
    | some place => exact Entry.filesOff_erase s.disk place _ c (h place hp r c hr) hr
  have hm := (Disk.makeFolders_sameFiles (cleared host s.disk source root) host.working
    (snapshotPlace root source).parent).keepsFiles
  intro r c hr
  rcases afterSnapshot_cases host s source root shown with ⟨ha, -⟩ | ha | ⟨-, ha⟩
  · rwa [ha]
  · rw [ha]
    exact hm _ c (hc r c hr)
  · rw [ha]
    exact Disk.copyTree_keepsFiles _ _ _ _ _ _ c (hm _ c (hc r c hr))

/-- A copy that does not meet itself leaves the disk as it was, or puts the source as it is. -/
theorem copyTree_of_not_meets {disk : Disk} {working source : Location} {target : Path}
    (hs : source.Proper) (hmeets : Disk.meetsItself source (target.resolve working) = false)
    (broken : Disk → Location → Location → Disk.BrokenCopy) :
    let after := (disk.copyTree working source target broken).2
    after = disk ∨ ∃ entries, disk.find? source = some (.folder entries) ∧
      after = Entry.put (.folder entries) disk (target.resolve working) := by
  intro after
  rcases Disk.copyTree_cases disk working source target broken with ⟨hsame, -⟩ |
    ⟨here, entries, there, hhere, hentries, hthere, -, hran⟩
  · exact .inl hsame
  · have hsource : here = source := by
      rw [Disk.locate_eq_resolve hhere]
      exact Path.follow_of_no_up (fun hm => (hs _ hm).2 rfl) []
    have htarget : there = target.resolve working := Disk.locate_eq_resolve hthere
    subst hsource htarget
    rcases hran with ⟨-, hran⟩ | ⟨htrue, -⟩
    · exact .inr ⟨entries, hentries, congrArg Prod.snd hran⟩
    · rw [hmeets] at htrue
      cases htrue

/-- A copy of a source without files adds none to it, unless it meets itself. -/
theorem fileless_copyTree {disk : Disk} {working source : Location} {target : Path}
    (hs : source.Proper) (hf : Fileless source disk)
    (hmeets : Disk.meetsItself source (target.resolve working) = false)
    (broken : Disk → Location → Location → Disk.BrokenCopy) :
    Fileless source (disk.copyTree working source target broken).2 := by
  rcases copyTree_of_not_meets hs hmeets broken with hsame | ⟨entries, hentries, hput⟩
  · rw [hsame]
    exact hf
  · rw [hput]
    intro r c hr
    rcases Entry.file_of_put hr with hr | ⟨q, -, hq⟩
    · exact hf r c hr
    · apply hf q c
      rw [Entry.find?_append, hentries]
      exact hq

/-- A copy to a place at or above the source does not meet itself. -/
theorem meetsItself_of_prefix {source place : Location} (h : place <+: source) :
    Disk.meetsItself source place = false := by
  have hle := h.length_le
  unfold Disk.meetsItself
  rw [decide_eq_false (by omega), Bool.and_false]

theorem removedPlace_eq_some {host : Host} {disk : Disk} {source place : Location} {root : Path}
    (h : removedPlace host disk source root = some place) :
    liesInside host root source = some false ∧
      disk.locate host.working (snapshotPlace root source) = .ok place := by
  unfold removedPlace at h
  split at h
  · rename_i l hin hl
    split_ifs at h
    cases h
    exact ⟨hin, hl⟩
  · cases h

/-- A snapshot that removes a folder at or above the source leaves no file below the
source. -/
theorem fileless_afterSnapshot {host : Host} {s : Session} {source place : Location} {root : Path}
    (hs : source.Proper) (hp : removedPlace host s.disk source root = some place)
    (h0 : place ≠ []) (hpre : place <+: source) (shown : Text) :
    Fileless source (afterSnapshot host s source root shown) := by
  obtain ⟨q, rfl⟩ := hpre
  have hc : Fileless (place ++ q) (cleared host s.disk (place ++ q) root) := by
    intro r c
    rw [cleared, hp, List.append_assoc, Entry.find?_erase_below s.disk h0]
    simp
  have hm : Fileless (place ++ q) ((cleared host s.disk (place ++ q) root).makeFolders
      host.working (snapshotPlace root (place ++ q)).parent).2 :=
    fun r c hr => hc r c ((Disk.makeFolders_sameFiles _ _ _ _ _).mp hr)
  rcases afterSnapshot_cases host s (place ++ q) root shown with ⟨-, hn⟩ | ha | ⟨-, ha⟩
  · rw [hp] at hn
    cases hn
  · rw [ha]
    exact hm
  · -- the copy goes to the removed place, which is above the source and so not inside
    have hplace := Disk.locate_eq_resolve (removedPlace_eq_some hp).2
    rw [ha]
    exact fileless_copyTree hs hm
      (hplace ▸ meetsItself_of_prefix (List.prefix_append place q)) host.brokenCopy

theorem not_prefix_of_liesInside {host : Host} {source : Location} {root : Path}
    (h : liesInside host root source = some false)
    (hroot : root.expandHome host.homeOf = some root) :
    ¬ source <+: root.resolve host.working := by
  rw [liesInside, hroot, Option.map_some, Option.some.injEq] at h
  rw [← List.isPrefixOf_iff_prefix, h]
  decide

/-- Without a leading `~` the place of the snapshot has the name of the source below the
resolved backup folder. -/
theorem resolve_snapshotPlace {host : Host} {source : Location} {root : Path} (hs : source.Proper)
    (hnot : ¬ source <+: root.resolve host.working) :
    (snapshotPlace root source).resolve host.working =
      root.resolve host.working ++ [source.name] := by
  have hname := hs _ (Location.name_mem fun h0 => hnot (h0 ▸ List.nil_prefix))
  exact Path.resolve_child hname.1 hname.2 host.working

/-- Without a leading `~` the copy does not meet itself. -/
theorem meetsItself_snapshotPlace {host : Host} {source : Location} {root : Path}
    (hs : source.Proper) (hroot : root.expandHome host.homeOf = some root)
    (hin : liesInside host root source = some false) :
    Disk.meetsItself source ((snapshotPlace root source).resolve host.working) = false := by
  have hnot := not_prefix_of_liesInside hin hroot
  rw [resolve_snapshotPlace hs hnot]
  refine eq_false_of_ne_true fun hmeets => ?_
  rw [Disk.meetsItself, Bool.and_eq_true, List.isPrefixOf_iff_prefix, decide_eq_true_iff] at hmeets
  obtain ⟨hpre, hlt⟩ := hmeets
  rcases List.prefix_concat_iff.mp hpre with he | hpre
  · rw [← he] at hlt
    omega
  · exact hnot hpre

/-- Without a leading `~` the removed folder has the name of the source below the
resolved backup folder. -/
theorem removedPlace_eq {host : Host} {disk : Disk} {source place : Location} {root : Path}
    (hs : source.Proper) (hroot : root.expandHome host.homeOf = some root)
    (hp : removedPlace host disk source root = some place) :
    ¬ source <+: root.resolve host.working ∧
      ∃ name, place = root.resolve host.working ++ [name] := by
  obtain ⟨hin, hl⟩ := removedPlace_eq_some hp
  have hnot := not_prefix_of_liesInside hin hroot
  exact ⟨hnot, source.name, (Disk.locate_eq_resolve hl).trans (resolve_snapshotPlace hs hnot)⟩

/-- **When a snapshot keeps its source.** Every file below the source is there
afterwards with its content, whether the snapshot answers or fails, if none lies below
the folder that it removes; and only then, if the backup folder is written without a
leading `~`. -/
theorem snapshot_keeps_source_iff (host : Host) (s : Session) (source : Location) (root : Path)
    (shown : Text) :
    (SparesSource host s.disk source root →
      KeepsBelow source s.disk (afterSnapshot host s source root shown)) ∧
    (source.Proper → root.expandHome host.homeOf = some root →
      KeepsBelow source s.disk (afterSnapshot host s source root shown) →
      SparesSource host s.disk source root) := by
  refine ⟨fun h => keepsBelow_of_spares h shown, fun hs hroot hkeep place hp r c hr hpre => ?_⟩
  obtain ⟨hnot, name, hname⟩ := removedPlace_eq hs hroot hp
  -- the removed folder is above a file of the source, so it is comparable with the source
  have hup : place <+: source := by
    rcases List.prefix_or_prefix_of_prefix hpre (List.prefix_append source r) with h | h
    · exact h
    · rw [hname] at h ⊢
      rcases List.prefix_concat_iff.mp h with h | h
      · rw [h]
      · exact absurd h hnot
  exact fileless_afterSnapshot hs hp (by simp [hname]) hup shown r c (hkeep r c hr)

/-- A folder `w/src` with a file, seen from above `w`. -/
def smallDisk : Disk :=
  .folder [("w".toList, .folder [("src".toList, .folder [("a.txt".toList, .file [120])])])]

theorem snapshot_keeps_source_iff_smallDisk :
    smallDisk.find? ["w".toList, "src".toList, "a.txt".toList] = some (.file [120]) ∧
      ¬ KeepsBelow ["w".toList, "src".toList] smallDisk
        (afterSnapshot (.bare [] []) ⟨smallDisk, none, []⟩ ["w".toList, "src".toList]
          ⟨.working, ["w".toList]⟩ "w".toList) := by
  refine ⟨rfl, fun hkeep => ?_⟩
  have hspares := (snapshot_keeps_source_iff (.bare [] []) ⟨smallDisk, none, []⟩
    ["w".toList, "src".toList] ⟨.working, ["w".toList]⟩ "w".toList).2
    (by unfold Location.Proper; decide) rfl hkeep
  exact hspares ["w".toList, "src".toList] (by decide +kernel) ["a.txt".toList] [120] rfl
    (List.prefix_append _ _)

end Handout
