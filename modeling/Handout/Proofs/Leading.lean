/-
# Where a path leads while folders are added

A path is followed from folder to folder. So it leads where it led as long as no folder is
lost (`KeepsFolders`, `locate_mono`); folders that are added can only let a path through that
was stopped at a missing name.

To store a file is to make the folders above it and to write it. What a path leads to is
looked at before and after (`Holds`). A file that is stored is there afterwards with its
content (`holds_of_store`), and a file that is there can be stored again (`store_of_holds`).
Where storing fails, the path led to no file and leads to none (`not_holds_of_store`): the
folders that were made on the way are not enough to reach one, for the folder above the
file is still missing if it could not be made (`hasFolder_of_makeFolders`).

All this is for a path that starts at a folder. Where a path does not, as below a working folder
that is gone, nothing is made and nothing stored (`store_of_not_folder`).

Key definitions: `Disk.KeepsFolders`, `Disk.Holds`, `Disk.store`.
Key theorems: `locate_mono`, `holds_of_store`, `store_of_holds`, `not_holds_of_store`,
`store_of_not_folder`.
-/
import Handout.Proofs.Looking

namespace Handout
namespace Disk

open Entry

/-! ### Folders that stay -/

/-- Every folder is still there. -/
def KeepsFolders (before after : Disk) : Prop :=
  ∀ q, before.look q = some .folder → after.look q = some .folder

theorem KeepsFolders.refl (disk : Disk) : KeepsFolders disk disk := fun _ h => h

theorem KeepsFolders.trans {a b c : Disk} (h : KeepsFolders a b) (h' : KeepsFolders b c) :
    KeepsFolders a c :=
  fun q hq => h' q (h q hq)

/-- An entry put where there is no folder keeps every folder. -/
theorem keepsFolders_put {disk : Disk} {l : Location} (h : disk.look l ≠ some .folder)
    (new : Entry) : KeepsFolders disk (put new disk l) := by
  intro q hq
  rcases look_put_cases new disk l q with hsame | ⟨r, rfl, -⟩
  · exact hsame.trans hq
  · -- a folder at the place or below would make the place itself a folder
    cases r with
    | nil => exact absurd (by simpa using hq) h
    | cons n r => exact absurd (look_above (List.cons_ne_nil n r) (by simp [hq])) h

theorem makeFolder_keepsFolders {disk made : Disk} {working : Location} {p : Path}
    (h : disk.makeFolder working p = .ok made) : KeepsFolders disk made := by
  unfold makeFolder at h
  split at h
  · cases h
  · split at h
    · cases h
    · rename_i l _ hl
      cases h
      exact keepsFolders_put (by simp [look_eq_none_iff.mpr hl]) _

theorem makeFolders_keepsFolders (disk : Disk) (working : Location) (p : Path) :
    KeepsFolders disk (disk.makeFolders working p).2 :=
  makeFolders_induct KeepsFolders.refl KeepsFolders.trans (fun _ => makeFolder_keepsFolders) disk

/-- Names lead where they led as long as no folder is lost. -/
theorem walk_mono {a b : Disk} (h : KeepsFolders a b) : ∀ {names : List Text} {l p : Location},
    a.walk l names = .ok p → b.walk l names = .ok p
  | [], _, _, hw => hw
  | n :: r, l, p, hw => by
    rw [walk] at hw ⊢
    split at hw
    · cases hw
    · cases hw
    · rename_i entries he
      obtain ⟨entries', he'⟩ :=
        look_eq_folder_iff.mp (h l (look_eq_folder_iff.mpr ⟨entries, he⟩))
      rw [he']
      exact walk_mono h hw

theorem find?_of_folder {disk : Disk} {q : Location} (h : disk.look q = some .folder) :
    disk.find? q ≠ none := by
  obtain ⟨entries, he⟩ := look_eq_folder_iff.mp h
  simp [he]

theorem locate_mono {a b : Disk} (h : KeepsFolders a b) {working l : Location} {p : Path}
    (hbase : a.look (p.base working) = some .folder) (hl : a.locate working p = .ok l) :
    b.locate working p = .ok l := by
  rw [locate_eq_walk (find?_of_folder (h _ hbase))]
  exact walk_mono h (walk_of_locate hl)

/-! ### The last name of a path -/

/-- The last name is followed from a folder that the names before it lead to. -/
theorem walk_concat {disk : Disk} {n : Text} {p : Location} : ∀ {names : List Text} {l : Location},
    disk.walk l (names ++ [n]) = .ok p → ∃ q, disk.walk l names = .ok q ∧
      disk.look q = some .folder ∧ p = if n = upName then q.dropLast else q ++ [n]
  | [], l, h => by
    rw [List.nil_append, walk] at h
    split at h
    · cases h
    · cases h
    · rename_i entries he
      rw [walk, Except.ok.injEq] at h
      exact ⟨l, rfl, look_eq_folder_iff.mpr ⟨entries, he⟩, h.symm⟩
  | m :: r, l, h => by
    rw [List.cons_append, walk] at h
    rw [walk]
    split at h
    · cases h
    · cases h
    · rename_i entries he
      exact walk_concat h

theorem hasFolder_iff {disk : Disk} {working : Location} {p : Path} :
    disk.hasFolder working p = true ↔
      ∃ l, disk.locate working p = .ok l ∧ disk.look l = some .folder := by
  unfold hasFolder entry?
  cases disk.locate working p with
  | error fault => simp
  | ok l =>
    simp only [Except.ok.injEq, exists_eq_left']
    rw [look]
    cases disk.find? l with
    | none => simp
    | some x => cases x <;> simp [isFolder, sight]

/-- What a path leads to stands in a folder, the one that the path above it leads to, or the
last name is a double dot. -/
theorem locate_concat {disk : Disk} {working l : Location} {start : PathStart} {names : List Text}
    {n : Text} (h : disk.locate working ⟨start, names ++ [n]⟩ = .ok l) :
    ∃ q, disk.locate working ⟨start, names⟩ = .ok q ∧ disk.look q = some .folder ∧
      l = if n = upName then q.dropLast else q ++ [n] := by
  have hbase := find?_base_of_locate h
  obtain ⟨q, hq, hfolder, hl⟩ := walk_concat (walk_of_locate h)
  have hfront : disk.locate working ⟨start, names⟩ = .ok q :=
    (locate_eq_walk (p := ⟨start, names⟩) hbase).trans hq
  exact ⟨q, hfront, hfolder, hl⟩

theorem hasFolder_above {disk : Disk} {working l : Location} {start : PathStart}
    {names : List Text} {n : Text} (h : disk.locate working ⟨start, names ++ [n]⟩ = .ok l) :
    disk.hasFolder working ⟨start, names⟩ = true := by
  obtain ⟨q, hq, hfolder, -⟩ := locate_concat h
  exact hasFolder_iff.mpr ⟨q, hq, hfolder⟩

/-- What is above a folder is a folder. -/
theorem look_dropLast {disk : Disk} {q : Location} (h : disk.look q = some .folder) :
    disk.look q.dropLast = some .folder := by
  rcases List.eq_nil_or_concat' q with rfl | ⟨r, n, rfl⟩
  · exact h
  · rw [List.dropLast_concat]
    exact look_above (List.cons_ne_nil n []) (by simp [h])

/-- A path that leads to no folder has a last name, which is no double dot, and the path
above it leads to a folder. -/
theorem exists_last {disk : Disk} {working l : Location} {p : Path}
    (hbase : disk.look (p.base working) = some .folder) (hl : disk.locate working p = .ok l)
    (hnot : disk.look l ≠ some .folder) :
    disk.hasFolder working p.parent = true ∧
      ∃ q n, l = q ++ [n] ∧ disk.look q = some .folder := by
  obtain ⟨start, all⟩ := p
  rcases List.eq_nil_or_concat' all with rfl | ⟨names, n, rfl⟩
  · have hwalk := walk_of_locate hl
    rw [walk, Except.ok.injEq] at hwalk
    exact absurd (hwalk ▸ hbase) hnot
  · obtain ⟨q, -, hfolder, hq⟩ := locate_concat hl
    have hparent : (⟨start, names ++ [n]⟩ : Path).parent = ⟨start, names⟩ := by
      rw [Path.parent, List.dropLast_concat]
    refine ⟨hparent ▸ hasFolder_above hl, q, n, ?_, hfolder⟩
    rw [hq]
    refine if_neg fun hup => ?_
    rw [hq, if_pos hup] at hnot
    exact hnot (look_dropLast hfolder)

/-! ### Folders that could not be made -/

theorem ensureFolder_eq_error {disk made : Disk} {working : Location} {p : Path} {e : FileError}
    (h : disk.ensureFolder working p = (.error e, made)) : made.hasFolder working p = false := by
  unfold ensureFolder at h
  split at h
  · cases h
  · split_ifs at h with hfolder
    · cases h
    · cases h
      exact eq_false_of_ne_true hfolder

/-- A folder that could not be made is not there: if one above it could not be made, no path
leads through that one. -/
theorem makeFoldersUp_eq_error {working : Location} {start : PathStart} {e : FileError} :
    ∀ {names : List Text} {disk made : Disk},
      makeFoldersUp working start names disk = (.error e, made) →
        made.hasFolder working ⟨start, names.reverse⟩ = false
  | [], _, _, h => ensureFolder_eq_error h
  | n :: r, disk, made, h => by
    rw [makeFoldersUp] at h
    split at h
    · split at h
      · exact ensureFolder_eq_error h
      · rename_i above habove
        cases h
        have ih := makeFoldersUp_eq_error habove
        refine eq_false_of_ne_true fun hfolder => ?_
        obtain ⟨l, hl, -⟩ := hasFolder_iff.mp hfolder
        rw [List.reverse_cons] at hl
        rw [hasFolder_above hl] at ih
        cases ih
    · exact ensureFolder_eq_error h

/-- A folder that is there after all has been made without a failure. -/
theorem hasFolder_of_makeFolders {disk : Disk} {working : Location} {p : Path}
    (h : (disk.makeFolders working p).2.hasFolder working p = true) :
    (disk.makeFolders working p).1 = .ok () := by
  rcases hm : disk.makeFolders working p with ⟨e | _, made⟩
  · have hnot := makeFoldersUp_eq_error hm
    rw [List.reverse_reverse] at hnot
    rw [hm] at h
    rw [show made.hasFolder working p = false from hnot] at h
    cases h
  · rfl

/-! ### Storing a file -/

/-- The path leads to a file with a content. -/
def Holds (disk : Disk) (working : Location) (p : Path) (content : Bytes) : Prop :=
  ∃ l, disk.locate working p = .ok l ∧ disk.look l = some (.file content)

theorem Holds.readFile_eq {disk : Disk} {working : Location} {p : Path} {content : Bytes}
    (h : disk.Holds working p content) : disk.readFile working p = .ok content := by
  obtain ⟨l, hl, hc⟩ := h
  rw [readFile, hl]
  simp only [look_eq_file_iff.mp hc]

theorem hasFile_iff {disk : Disk} {working : Location} {p : Path} :
    disk.hasFile working p = true ↔ ∃ content, disk.Holds working p content := by
  unfold hasFile entry? Holds
  cases disk.locate working p with
  | error fault => simp
  | ok l =>
    simp only [Except.ok.injEq, exists_eq_left', look_eq_file_iff]
    cases disk.find? l with
    | none => simp
    | some x => cases x <;> simp [isFile]

/-- The folders above a file are made and the file is written. What was made stays made
if that fails. -/
def store (disk : Disk) (working : Location) (p : Path) (content : Bytes) :
    Except FileError Unit × Disk :=
  match disk.makeFolders working p.parent with
  | (.error e, made) => (.error e, made)
  | (.ok (), made) =>
    match made.writeFile working p content with
    | .error e => (.error e, made)
    | .ok written => (.ok (), written)

variable {disk after : Disk} {working : Location} {p : Path} {content : Bytes}

/-- A file was stored if the folders above it were made and it was written. -/
theorem store_eq_ok (h : disk.store working p content = (.ok (), after)) :
    ∃ made, disk.makeFolders working p.parent = (.ok (), made) ∧
      made.writeFile working p content = .ok after := by
  unfold store at h
  split at h
  · cases h
  · rename_i made hm
    split at h
    · cases h
    · rename_i written hw
      cases h
      exact ⟨made, hm, hw⟩

/-- Where a file was not stored, the disk is the one with the folders made. -/
theorem store_eq_error {e : FileError} (h : disk.store working p content = (.error e, after)) :
    after = (disk.makeFolders working p.parent).2 ∧
      ((disk.makeFolders working p.parent).1 = .ok () →
        after.writeFile working p content = .error e) := by
  unfold store at h
  split at h
  · rename_i e' made hm
    cases h
    rw [hm]
    exact ⟨rfl, fun h => by cases h⟩
  · rename_i made hm
    split at h
    · rename_i e' hw
      cases h
      rw [hm]
      exact ⟨rfl, fun _ => hw⟩
    · cases h

/-- A file that was stored is there. -/
theorem holds_of_store (hbase : disk.look (p.base working) = some .folder)
    (h : (disk.store working p content).1 = .ok ()) :
    (disk.store working p content).2.Holds working p content := by
  rcases hs : disk.store working p content with ⟨e | _, after⟩
  · rw [hs] at h
    cases h
  · obtain ⟨made, hm, hw⟩ := store_eq_ok hs
    obtain ⟨l, hl, hnot, rfl⟩ := locate_of_writeFile hw
    have hkeeps := makeFolders_keepsFolders disk working p.parent
    rw [hm] at hkeeps
    obtain ⟨-, q, n, rfl, hfolder⟩ := exists_last (hkeeps _ hbase) hl hnot
    refine ⟨q ++ [n], locate_mono (keepsFolders_put hnot _) (hkeeps _ hbase) hl, ?_⟩
    rw [look_put_below (.file content) n [] made hfolder, look_nil]
    rfl

/-- A file that is there after the folders above it were made can be written: these folders
are there, so that making them did not fail. -/
theorem writable_of_holds {c : Bytes} (hbase : disk.look (p.base working) = some .folder)
    (h : (disk.makeFolders working p.parent).2.Holds working p c) (content : Bytes) :
    (disk.makeFolders working p.parent).1 = .ok () ∧
      ∃ written, (disk.makeFolders working p.parent).2.writeFile working p content =
        .ok written := by
  obtain ⟨l, hl, hc⟩ := h
  have hkeeps := makeFolders_keepsFolders disk working p.parent
  obtain ⟨habove, -⟩ := exists_last (hkeeps _ hbase) hl (by simp [hc])
  refine ⟨hasFolder_of_makeFolders habove,
    put (.file content) (disk.makeFolders working p.parent).2 l, ?_⟩
  rw [writeFile, hl]
  simp only [look_eq_file_iff.mp hc]

/-- A file that is there can be stored again. -/
theorem store_of_holds {c : Bytes} (hbase : disk.look (p.base working) = some .folder)
    (h : disk.Holds working p c) (content : Bytes) :
    (disk.store working p content).1 = .ok () := by
  have hholds : (disk.makeFolders working p.parent).2.Holds working p c := by
    obtain ⟨l, hl, hc⟩ := h
    refine ⟨l, locate_mono (makeFolders_keepsFolders disk working p.parent) hbase hl, ?_⟩
    rw [look_eq_file_iff] at hc ⊢
    exact (makeFolders_sameFiles disk working p.parent l c).mpr hc
  obtain ⟨hok, written, hw⟩ := writable_of_holds hbase hholds content
  rcases hs : disk.store working p content with ⟨e | _, after⟩
  · obtain ⟨rfl, herror⟩ := store_eq_error hs
    rw [herror hok] at hw
    cases hw
  · rfl

/-- Where a file could not be stored there is none. -/
theorem not_holds_of_store (hbase : disk.look (p.base working) = some .folder)
    (h : (disk.store working p content).1 ≠ .ok ()) (c : Bytes) :
    ¬ (disk.store working p content).2.Holds working p c := by
  rcases hs : disk.store working p content with ⟨e | _, after⟩
  · intro hholds
    obtain ⟨rfl, herror⟩ := store_eq_error hs
    obtain ⟨hok, written, hw⟩ := writable_of_holds hbase hholds content
    rw [herror hok] at hw
    cases hw
  · rw [hs] at h
    exact absurd rfl h

/-! ### Paths that start at no folder -/

/-- A path that starts at no folder leads at most to its start. -/
theorem eq_base_of_locate {l : Location} (h : disk.look (p.base working) ≠ some .folder)
    (hl : disk.locate working p = .ok l) : l = p.base working := by
  have hwalk := walk_of_locate hl
  cases hn : p.names with
  | nil =>
    rw [hn, walk, Except.ok.injEq] at hwalk
    exact hwalk.symm
  | cons n r =>
    rw [hn, walk] at hwalk
    split at hwalk
    · cases hwalk
    · cases hwalk
    · rename_i entries he
      exact absurd (look_eq_folder_iff.mpr ⟨entries, he⟩) h

theorem ensureFolder_of_not_folder (h : disk.look (p.base working) ≠ some .folder) :
    ∃ e, disk.ensureFolder working p = (.error e, disk) := by
  have hfault : ∃ fault, disk.makeFolder working p = .error fault := by
    unfold makeFolder
    cases hl : disk.locate working p with
    | error fault => exact ⟨fault, rfl⟩
    | ok l =>
      have hthere := find?_base_of_locate hl
      rw [← eq_base_of_locate h hl] at hthere
      obtain ⟨x, hx⟩ := Option.ne_none_iff_exists'.mp hthere
      exact ⟨.exists, by simp only [hx]⟩
  have hnone : disk.hasFolder working p = false := by
    refine eq_false_of_ne_true fun hfolder => ?_
    obtain ⟨l, hl, hlook⟩ := hasFolder_iff.mp hfolder
    exact h (eq_base_of_locate h hl ▸ hlook)
  obtain ⟨fault, hmake⟩ := hfault
  refine ⟨.failed fault p, ?_⟩
  rw [ensureFolder, hmake]
  simp only [hnone, Bool.false_eq_true, if_false]

/-- No folder is made along a path that starts at none. -/
theorem makeFoldersUp_of_not_folder {start : PathStart} : ∀ names : List Text,
    disk.look ((⟨start, []⟩ : Path).base working) ≠ some .folder →
      ∃ e, makeFoldersUp working start names disk = (.error e, disk)
  | [], h => ensureFolder_of_not_folder h
  | n :: r, h => by
    obtain ⟨above, habove⟩ := makeFoldersUp_of_not_folder r h
    have hensure := ensureFolder_of_not_folder (p := ⟨start, (n :: r).reverse⟩) h
    rw [makeFoldersUp]
    split
    · rw [habove]
      exact ⟨above, rfl⟩
    · exact hensure

/-- Nothing can be stored at a path that starts at no folder. -/
theorem store_of_not_folder (h : disk.look (p.base working) ≠ some .folder) (content : Bytes) :
    ∃ e, disk.store working p content = (.error e, disk) := by
  obtain ⟨e, he⟩ := makeFoldersUp_of_not_folder p.parent.names.reverse h
  have hmade : disk.makeFolders working p.parent = (.error e, disk) := he
  exact ⟨e, by rw [store, hmade]⟩

end Disk
end Handout
