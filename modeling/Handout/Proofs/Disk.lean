/-
# What file operations keep

A disk is looked at through the files it holds: `find? p = some (.file c)` says that
the file at `p` has the content `c`. Putting an entry changes files only at and below
its place (`filesOff_put`, `file_of_put`), removing one likewise (`filesOff_erase`),
and nothing is left below a place that was removed (`find?_erase_below`).

So an operation on a place where there was nothing keeps every file. What making one
folder keeps, making all of a path keeps, wherever it stops (`makeFolders_induct`): no
file is added or removed (`makeFolders_sameFiles`). A copy puts one folder where there was nothing
(`copyTree_cases`), so it keeps all there was (`copyTree_keepsFiles`).

Key definitions: `Entry.FilesOff`, `Disk.KeepsFiles`, `Disk.SameFiles`.
Key theorems: `filesOff_put`, `filesOff_erase`, `find?_erase_below`,
`makeFolders_induct`, `makeFolders_sameFiles`, `copyTree_cases`, `copyTree_keepsFiles`,
`walk_eq_follow`.
-/
import Handout.Files.Disk
import Mathlib.Data.List.Infix

namespace Handout
namespace Entry

/-! ### Entries under names -/

theorem named?_setNamed_self (name : Text) (new : Entry) : ∀ entries : List (Text × Entry),
    named? name (setNamed name new entries) = some new
  | [] => by simp [setNamed, named?]
  | (n, e) :: r => by
    by_cases h : n = name
    · simp [setNamed, named?, h]
    · simp [setNamed, named?, h, named?_setNamed_self name new r]

theorem named?_setNamed_ne {name other : Text} (h : other ≠ name) (new : Entry) :
    ∀ entries : List (Text × Entry),
    named? other (setNamed name new entries) = named? other entries
  | [] => by simp [setNamed, named?, h.symm]
  | (n, e) :: r => by
    by_cases hn : n = name
    · subst hn
      simp [setNamed, named?, h.symm]
    · simp [setNamed, named?, hn, named?_setNamed_ne h new r]

theorem named?_dropNamed_self (name : Text) : ∀ entries : List (Text × Entry),
    named? name (dropNamed name entries) = none
  | [] => rfl
  | (n, e) :: r => by
    by_cases h : n = name
    · simp [dropNamed, h, named?_dropNamed_self name r]
    · simp [dropNamed, named?, h, named?_dropNamed_self name r]

theorem named?_dropNamed_ne {name other : Text} (h : other ≠ name) :
    ∀ entries : List (Text × Entry),
    named? other (dropNamed name entries) = named? other entries
  | [] => rfl
  | (n, e) :: r => by
    by_cases hn : n = name
    · subst hn
      simp [dropNamed, named?, h.symm, named?_dropNamed_ne h r]
    · simp [dropNamed, named?, hn, named?_dropNamed_ne h r]

/-! ### Entries at locations -/

theorem find?_nil (e : Entry) : e.find? [] = some e := by
  cases e <;> rfl

theorem find?_append : ∀ (e : Entry) (a b : Location),
    e.find? (a ++ b) = (e.find? a).bind fun x => x.find? b
  | e, [], b => by rw [List.nil_append, find?_nil]; rfl
  | file c, n :: a, b => rfl
  | folder entries, n :: a, b => by
    rw [List.cons_append, find?, find?]
    cases named? n entries with
    | none => rfl
    | some e => exact find?_append e a b

/-- Nothing lies below a place where there is nothing. -/
theorem not_prefix_of_free {e x : Entry} {l p : Location} (hl : e.find? l = none)
    (hp : e.find? p = some x) : ¬ l <+: p := by
  rintro ⟨q, rfl⟩
  rw [find?_append, hl] at hp
  cases hp

/-- The files that are not at a location or below are in the second entry as in the
first. -/
def FilesOff (l : Location) (e e' : Entry) : Prop :=
  ∀ p c, ¬ l <+: p → e.find? p = some (.file c) → e'.find? p = some (.file c)

/-- A folder that changes under one name keeps the files under the others. -/
theorem filesOff_name {n : Text} {entries entries' : List (Text × Entry)}
    (h : ∀ k, k ≠ n → named? k entries' = named? k entries) :
    FilesOff [n] (folder entries) (folder entries') := by
  intro p c hn hp
  cases p with
  | nil => cases hp
  | cons k p =>
    have hk : k ≠ n := by
      rintro rfl
      exact hn ⟨p, rfl⟩
    rw [find?] at hp ⊢
    rwa [h k hk]

/-- A change inside one of the entries of a folder is one inside the folder. -/
theorem filesOff_below {n : Text} {l : Location} {entries : List (Text × Entry)} {e e' : Entry}
    (he : named? n entries = some e) (h : FilesOff l e e') :
    FilesOff (n :: l) (folder entries) (folder (setNamed n e' entries)) := by
  intro p c hn hp
  cases p with
  | nil => cases hp
  | cons k p =>
    rw [find?] at hp ⊢
    by_cases hk : k = n
    · subst hk
      rw [he] at hp
      rw [named?_setNamed_self]
      exact h p c (fun hl => hn ((List.prefix_cons_inj k).mpr hl)) hp
    · rwa [named?_setNamed_ne hk]

/-- Putting an entry keeps the files that are not at its place or below. -/
theorem filesOff_put (new : Entry) : ∀ (e : Entry) (l : Location), FilesOff l e (put new e l)
  | _, [] => fun _ _ h _ => absurd List.nil_prefix h
  | file _, _ :: _ => fun _ _ _ hp => hp
  | folder entries, [_] => filesOff_name fun _ hk => named?_setNamed_ne hk new entries
  | folder entries, n :: m :: r => by
    rw [put]
    split
    · exact fun _ _ _ hp => hp
    · rename_i e he
      exact filesOff_below he (filesOff_put new e (m :: r))

/-- After an entry is put, a file was there before or came with the entry. -/
theorem file_of_put {new : Entry} {c : Bytes} : ∀ {e : Entry} {l p : Location},
    (put new e l).find? p = some (.file c) →
    e.find? p = some (.file c) ∨ ∃ q, p = l ++ q ∧ new.find? q = some (.file c)
  | _, [], p, h => .inr ⟨p, rfl, h⟩
  | file _, _ :: _, _, h => .inl h
  | folder _, [_], [], h => by cases h
  | folder entries, [n], k :: p, h => by
    rw [put, find?] at h
    by_cases hk : k = n
    · subst hk
      rw [named?_setNamed_self] at h
      exact .inr ⟨p, rfl, h⟩
    · rw [named?_setNamed_ne hk] at h
      exact .inl h
  | folder entries, n :: m :: r, p, h => by
    rw [put] at h
    split at h
    · exact .inl h
    · rename_i e he
      cases p with
      | nil => cases h
      | cons k p =>
        rw [find?] at h ⊢
        by_cases hk : k = n
        · subst hk
          rw [named?_setNamed_self] at h
          rw [he]
          rcases file_of_put h with h | ⟨q, rfl, hq⟩
          · exact .inl h
          · exact .inr ⟨q, rfl, hq⟩
        · rw [named?_setNamed_ne hk] at h
          exact .inl h

/-- Removing an entry keeps the files that are not at its place or below. -/
theorem filesOff_erase : ∀ (e : Entry) (l : Location), FilesOff l e (e.erase l)
  | _, [] => fun _ _ h _ => absurd List.nil_prefix h
  | file _, _ :: _ => fun _ _ _ hp => hp
  | folder entries, [_] => filesOff_name fun _ hk => named?_dropNamed_ne hk entries
  | folder entries, n :: m :: r => by
    rw [erase]
    split
    · exact fun _ _ _ hp => hp
    · rename_i e he
      exact filesOff_below he (filesOff_erase e (m :: r))

/-- Nothing is left at a place that was removed, nor below. -/
theorem find?_erase_below : ∀ (e : Entry) {l : Location}, l ≠ [] → ∀ q : Location,
    (e.erase l).find? (l ++ q) = none
  | _, [], h, _ => absurd rfl h
  | file _, _ :: _, _, _ => rfl
  | folder entries, [n], _, q => by
    rw [erase, List.singleton_append, find?, named?_dropNamed_self]
  | folder entries, n :: m :: r, _, q => by
    rw [erase]
    split
    · rename_i he
      rw [List.cons_append, find?, he]
    · rename_i e he
      rw [List.cons_append, find?, named?_setNamed_self]
      exact find?_erase_below e (by simp) q

end Entry

namespace Disk

/-- Every file is still there with its content. -/
def KeepsFiles (before after : Disk) : Prop :=
  ∀ p c, before.find? p = some (.file c) → after.find? p = some (.file c)

/-- The same files are there with the same content. -/
def SameFiles (before after : Disk) : Prop :=
  ∀ p c, after.find? p = some (.file c) ↔ before.find? p = some (.file c)

theorem SameFiles.refl (disk : Disk) : SameFiles disk disk := fun _ _ => Iff.rfl

theorem SameFiles.trans {a b c : Disk} (h : SameFiles a b) (h' : SameFiles b c) : SameFiles a c :=
  fun p x => (h' p x).trans (h p x)

theorem SameFiles.keepsFiles {a b : Disk} (h : SameFiles a b) : KeepsFiles a b :=
  fun p c => (h p c).mpr

/-- An entry put where there was nothing keeps every file. -/
theorem keepsFiles_put {disk : Disk} {l : Location} (h : disk.find? l = none) (new : Entry) :
    KeepsFiles disk (Entry.put new disk l) :=
  fun p c hp => Entry.filesOff_put new disk l p c (Entry.not_prefix_of_free h hp) hp

/-! ### Making folders -/

theorem file_not_below_empty (q : Location) (c : Bytes) :
    (Entry.folder []).find? q ≠ some (.file c) := by
  cases q with
  | nil => simp [Entry.find?]
  | cons n r => simp [Entry.find?, Entry.named?]

theorem makeFolder_sameFiles {disk made : Disk} {working : Location} {p : Path}
    (h : disk.makeFolder working p = .ok made) : SameFiles disk made := by
  unfold makeFolder at h
  split at h
  · cases h
  · split at h
    · cases h
    · rename_i l _ hl
      cases h
      intro q c
      refine ⟨fun hq => ?_, keepsFiles_put hl _ q c⟩
      rcases Entry.file_of_put hq with hq | ⟨r, -, hr⟩
      · exact hq
      · exact absurd hr (file_not_below_empty r c)

section MakeFolders

variable {R : Disk → Disk → Prop} {working : Location}

theorem ensureFolder_induct (hrefl : ∀ d, R d d) {p : Path}
    (hmake : ∀ {d made : Disk}, d.makeFolder working p = .ok made → R d made) (disk : Disk) :
    R disk (disk.ensureFolder working p).2 := by
  unfold ensureFolder
  split
  · rename_i made h
    exact hmake h
  · split_ifs
    · exact hrefl disk
    · exact hrefl disk

theorem makeFoldersUp_induct (hrefl : ∀ d, R d d) (htrans : ∀ {a b c}, R a b → R b c → R a c)
    {start : PathStart} : ∀ {names : List Text}, (∀ {above : List Text} {d made : Disk},
      above <:+ names → d.makeFolder working ⟨start, above.reverse⟩ = .ok made → R d made) →
    ∀ disk : Disk, R disk (makeFoldersUp working start names disk).2
  | [], hmake, disk => ensureFolder_induct hrefl (hmake List.suffix_rfl) disk
  | n :: r, hmake, disk => by
    have hensure := ensureFolder_induct hrefl (hmake List.suffix_rfl)
    have ih := makeFoldersUp_induct hrefl htrans
      (fun habove => hmake (habove.trans (List.suffix_cons n r))) disk
    rw [makeFoldersUp]
    split
    · split
      · rename_i made h
        rw [h] at ih
        exact htrans ih (hensure made)
      · rename_i e made h
        rw [h] at ih
        exact ih
    · exact hensure disk

/-- What holds for every folder on a path that is made holds when all of them are made,
also where that fails. -/
theorem makeFolders_induct (hrefl : ∀ d, R d d) (htrans : ∀ {a b c}, R a b → R b c → R a c)
    {p : Path} (hmake : ∀ {names : List Text} {d made : Disk}, names <+: p.names →
      d.makeFolder working ⟨p.start, names⟩ = .ok made → R d made) (disk : Disk) :
    R disk (disk.makeFolders working p).2 := by
  refine makeFoldersUp_induct hrefl htrans (fun {above _ _} habove => hmake ?_) disk
  rw [← List.reverse_reverse p.names]
  exact List.reverse_prefix.mpr habove

end MakeFolders

/-- Making folders neither adds nor removes a file, also where it fails. -/
theorem makeFolders_sameFiles (disk : Disk) (working : Location) (p : Path) :
    SameFiles disk (disk.makeFolders working p).2 :=
  makeFolders_induct SameFiles.refl SameFiles.trans (fun _ => makeFolder_sameFiles) disk

/-! ### Removing and copying -/

section CopyTree

variable (disk : Disk) (working source : Location) (target : Path)
  (broken : Disk → Location → Location → BrokenCopy)

/-- **What copying a folder can do.** It fails and leaves the disk as it was, or it puts a
folder where there was nothing: the one that was copied, or what is left of it if the copy
meets itself. -/
theorem copyTree_cases :
    let ran := disk.copyTree working source target broken
    (ran.2 = disk ∧ ∃ e, ran.1 = .error e) ∨
    ∃ place entries l, disk.locate working (.ofLocation source) = .ok place ∧
      disk.find? place = some (.folder entries) ∧ disk.locate working target = .ok l ∧
      disk.find? l = none ∧
      (meetsItself place l = false ∧ ran = (.ok (), Entry.put (.folder entries) disk l) ∨
        meetsItself place l = true ∧ (∃ e, ran.1 = .error e) ∧
          ∃ left, ran.2 = Entry.put (.folder left) disk l) := by
  intro ran
  have hran : ran = disk.copyTree working source target broken := rfl
  rw [copyTree] at hran
  split at hran
  · exact .inl (hran ▸ ⟨rfl, _, rfl⟩)
  · rename_i place hplace
    split at hran
    · exact .inl (hran ▸ ⟨rfl, _, rfl⟩)
    · exact .inl (hran ▸ ⟨rfl, _, rfl⟩)
    · rename_i entries hentries
      split at hran
      · exact .inl (hran ▸ ⟨rfl, _, rfl⟩)
      · rename_i l hl
        split at hran
        · exact .inl (hran ▸ ⟨rfl, _, rfl⟩)
        · rename_i hnone
          refine .inr ⟨place, entries, l, hplace, hentries, hl, hnone, ?_⟩
          split at hran
          · rename_i hmeets
            exact .inr (hran ▸ ⟨hmeets, ⟨_, rfl⟩, _, rfl⟩)
          · rename_i hmeets
            exact .inl ⟨eq_false_of_ne_true hmeets, hran⟩

variable {disk working source target broken}

/-- A copy that was made is the folder as it was. -/
theorem copyTree_eq_ok {after : Disk}
    (h : disk.copyTree working source target broken = (.ok (), after)) :
    ∃ place entries l, disk.locate working (.ofLocation source) = .ok place ∧
      disk.find? place = some (.folder entries) ∧ disk.locate working target = .ok l ∧
        disk.find? l = none ∧ meetsItself place l = false ∧
          after = Entry.put (.folder entries) disk l := by
  rcases copyTree_cases disk working source target broken with ⟨-, e, he⟩ |
    ⟨place, entries, l, hplace, hentries, hl, hnone, ⟨hmeets, hran⟩ | ⟨-, ⟨e, he⟩, -⟩⟩
  · rw [h] at he
    cases he
  · rw [h] at hran
    cases hran
    exact ⟨place, entries, l, hplace, hentries, hl, hnone, hmeets, rfl⟩
  · rw [h] at he
    cases he

/-- A copy keeps every file, also where it fails. -/
theorem copyTree_keepsFiles (disk : Disk) (working source : Location) (target : Path)
    (broken : Disk → Location → Location → BrokenCopy) :
    KeepsFiles disk (disk.copyTree working source target broken).2 := by
  rcases copyTree_cases disk working source target broken with ⟨hsame, -⟩ |
    ⟨place, entries, l, -, -, -, hnone, ⟨-, hran⟩ | ⟨-, -, left, hran⟩⟩
  · rw [hsame]
    exact fun _ _ hp => hp
  · rw [hran]
    exact keepsFiles_put hnone _
  · rw [hran]
    exact keepsFiles_put hnone _

end CopyTree

/-! ### Where a path leads -/

/-- A walk through folders leads where the names lead. -/
theorem walk_eq_follow {disk : Disk} : ∀ {names : List Text} {l p : Location},
    disk.walk l names = .ok p → p = Path.follow l names
  | [], l, p, h => by
    rw [walk, Except.ok.injEq] at h
    exact h.symm
  | n :: r, l, p, h => by
    rw [walk] at h
    split at h
    · cases h
    · cases h
    · rw [Path.follow]
      split_ifs at h ⊢ with hn
      · exact walk_eq_follow h
      · exact walk_eq_follow h

theorem walk_of_locate {disk : Disk} {working l : Location} {p : Path}
    (h : disk.locate working p = .ok l) : disk.walk (p.base working) p.names = .ok l := by
  rw [locate] at h
  split_ifs at h
  exact h

/-- A path that leads somewhere starts where something is. -/
theorem find?_base_of_locate {disk : Disk} {working l : Location} {p : Path}
    (h : disk.locate working p = .ok l) : disk.find? (p.base working) ≠ none := by
  rw [locate] at h
  split_ifs at h with hbase
  exact Option.isSome_iff_ne_none.mp hbase

/-- Where something is at its start, a path is followed name by name. -/
theorem locate_eq_walk {disk : Disk} {working : Location} {p : Path}
    (h : disk.find? (p.base working) ≠ none) :
    disk.locate working p = disk.walk (p.base working) p.names :=
  if_pos (Option.isSome_iff_ne_none.mpr h)

theorem locate_eq_resolve {disk : Disk} {working l : Location} {p : Path}
    (h : disk.locate working p = .ok l) : l = p.resolve working :=
  walk_eq_follow (walk_of_locate h)

end Disk

namespace Path

theorem follow_append : ∀ (names : List Text) (l : Location) (more : List Text),
    follow l (names ++ more) = follow (follow l names) more
  | [], _, _ => rfl
  | n :: r, l, more => by
    rw [List.cons_append, follow, follow]
    split_ifs
    · exact follow_append r _ more
    · exact follow_append r _ more

/-- Names without dots are followed down. -/
theorem follow_of_no_up : ∀ {names : List Text}, upName ∉ names → ∀ l : Location,
    follow l names = l ++ names
  | [], _, l => (List.append_nil l).symm
  | n :: r, h, l => by
    have hn : n ≠ upName := fun e => h (e ▸ List.mem_cons_self ..)
    rw [follow, if_neg hn, follow_of_no_up fun hm => h (List.mem_cons_of_mem _ hm)]
    simp

theorem resolve_child {p : Path} {name : Text} (h0 : name ≠ []) (hup : name ≠ upName)
    (working : Location) : (p.child name).resolve working = p.resolve working ++ [name] := by
  have hbase : (p.child name).base working = p.base working := by
    rw [child, if_neg h0]
    rfl
  have hnames : (p.child name).names = p.names ++ [name] := by
    rw [child, if_neg h0]
  rw [resolve, hbase, hnames, follow_append, follow, if_neg hup, follow, resolve]

end Path
end Handout
