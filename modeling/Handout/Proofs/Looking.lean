/-
# What a disk shows

At every location a disk shows nothing, a folder, or a file with its content. Putting
an entry changes what is shown at its place and below and nowhere else (`look_put_off`,
`look_put_below`), and so does removing one (`look_erase_off`, `look_erase_below`), so
that what an operation leaves alone is said as an equality of what is shown.

A path without double dots leads where its names spell, if the folder before the last
name is there (`locate_of_look`, `entry?_eq_find?`). Making folders along such a path
adds folders on the way to it where there was nothing (`makeFolders_grownTo`).

The files of a folder are listed in ascending order, each of them once
(`mem_files_iff`, `files_sorted`).

Key definitions: `Sight`, `Entry.look`, `Entry.SameOff`.
Key theorems: `look_put_off`, `look_putFile`, `look_eraseFile`, `entry?_eq_find?`,
`makeFolders_grownTo`, `mem_files_iff`, `files_sorted`.
-/
import Handout.Proofs.Disk
import Mathlib.Data.Char
import Mathlib.Data.List.Lex

namespace Handout

/-- What stands at a location. -/
inductive Sight where
  | folder
  | file (content : Bytes)
deriving Repr, DecidableEq

namespace Entry

/-- An entry as it is seen from outside. -/
def sight : Entry → Sight
  | file content => .file content
  | folder _ => .folder

/-- What is shown at a location below an entry. -/
def look (e : Entry) (p : Location) : Option Sight :=
  (e.find? p).map sight

theorem look_nil (e : Entry) : e.look [] = some e.sight := by
  rw [look, find?_nil]
  rfl

theorem look_folder_cons (entries : List (Text × Entry)) (n : Text) (p : Location) :
    (folder entries).look (n :: p) = (named? n entries).bind (·.look p) := by
  rw [look, find?]
  cases named? n entries <;> rfl

theorem look_file_cons (content : Bytes) (n : Text) (p : Location) :
    (file content).look (n :: p) = none := rfl

theorem look_append_eq (e : Entry) (a b : Location) :
    e.look (a ++ b) = (e.find? a).bind (·.look b) := by
  rw [look, find?_append]
  cases e.find? a <;> rfl

theorem look_append {e x : Entry} {a : Location} (h : e.find? a = some x) (b : Location) :
    e.look (a ++ b) = x.look b := by
  rw [look_append_eq, h]
  rfl

theorem look_eq_none_iff {e : Entry} {p : Location} : e.look p = none ↔ e.find? p = none :=
  Option.map_eq_none_iff

theorem look_eq_file_iff {e : Entry} {p : Location} {c : Bytes} :
    e.look p = some (.file c) ↔ e.find? p = some (.file c) := by
  unfold look
  cases e.find? p with
  | none => simp
  | some x => cases x <;> simp [sight]

theorem look_eq_folder_iff {e : Entry} {p : Location} :
    e.look p = some .folder ↔ ∃ entries, e.find? p = some (.folder entries) := by
  unfold look
  cases e.find? p with
  | none => simp
  | some x => cases x <;> simp [sight]

/-- What has something below it is a folder. -/
theorem look_above {e : Entry} {p q : Location} (hq : q ≠ []) (h : e.look (p ++ q) ≠ none) :
    e.look p = some .folder := by
  cases hp : e.find? p with
  | none =>
    rw [look, find?_append, hp] at h
    exact absurd rfl h
  | some x =>
    rw [look_append hp] at h
    cases x with
    | folder entries => exact look_eq_folder_iff.mpr ⟨entries, hp⟩
    | file c =>
      cases q with
      | nil => exact absurd rfl hq
      | cons n q => exact absurd (look_file_cons c n q) h

/-- What has something at or below it is there. -/
theorem find?_front {e : Entry} {p q : Location} (h : e.look (p ++ q) ≠ none) :
    e.find? p ≠ none := by
  intro hp
  rw [look_append_eq, hp] at h
  exact h rfl

/-- Nothing lies below nothing, nor below a file. -/
theorem look_below_of_not_folder {e : Entry} {p q : Location} (hq : q ≠ [])
    (h : e.look p ≠ some .folder) : e.look (p ++ q) = none :=
  not_not.mp fun hn => h (look_above hq hn)

/-! ### Putting and removing -/

/-- What is not at a location or below shows the same in both entries. -/
def SameOff (l : Location) (e e' : Entry) : Prop :=
  ∀ p, ¬ l <+: p → e'.look p = e.look p

theorem SameOff.refl (l : Location) (e : Entry) : SameOff l e e := fun _ _ => rfl

/-- A folder that changes under one name shows the same under the others. -/
theorem sameOff_name {n : Text} {entries entries' : List (Text × Entry)}
    (h : ∀ k, k ≠ n → named? k entries' = named? k entries) :
    SameOff [n] (folder entries) (folder entries') := by
  intro p hp
  cases p with
  | nil => rw [look_nil, look_nil]; rfl
  | cons k p =>
    have hk : k ≠ n := by
      rintro rfl
      exact hp ⟨p, rfl⟩
    rw [look_folder_cons, look_folder_cons, h k hk]

/-- A change inside one of the entries of a folder is one inside the folder. -/
theorem sameOff_below {n : Text} {l : Location} {entries : List (Text × Entry)} {e e' : Entry}
    (he : named? n entries = some e) (h : SameOff l e e') :
    SameOff (n :: l) (folder entries) (folder (setNamed n e' entries)) := by
  intro p hp
  cases p with
  | nil => rw [look_nil, look_nil]; rfl
  | cons k p =>
    rw [look_folder_cons, look_folder_cons]
    by_cases hk : k = n
    · subst hk
      rw [named?_setNamed_self, he]
      exact h p fun hl => hp ((List.prefix_cons_inj k).mpr hl)
    · rw [named?_setNamed_ne hk]

/-- Putting an entry changes nothing that is not at its place or below. -/
theorem look_put_off (new : Entry) : ∀ (e : Entry) (l : Location), SameOff l e (put new e l)
  | _, [] => fun _ hp => absurd List.nil_prefix hp
  | file _, _ :: _ => SameOff.refl _ _
  | folder entries, [_] => sameOff_name fun _ hk => named?_setNamed_ne hk new entries
  | folder entries, n :: m :: r => by
    rw [put]
    split
    · exact SameOff.refl _ _
    · rename_i e he
      exact sameOff_below he (look_put_off new e (m :: r))

/-- In a folder that is there an entry can be put. -/
theorem look_put_below (new : Entry) (n : Text) (q : Location) : ∀ (e : Entry) {l : Location},
    e.look l = some .folder → (put new e (l ++ [n])).look (l ++ n :: q) = new.look q
  | file c, l, h => by
    cases l with
    | nil => rw [look_nil] at h; cases h
    | cons m r => cases h
  | folder entries, [], _ => by
    rw [List.nil_append, List.nil_append, put, look_folder_cons, named?_setNamed_self]
    rfl
  | folder entries, m :: r, h => by
    rw [look_folder_cons] at h
    cases he : named? m entries with
    | none => rw [he] at h; cases h
    | some e =>
      rw [he] at h
      have hput : put new (folder entries) (m :: r ++ [n]) =
          folder (setNamed m (put new e (r ++ [n])) entries) := by
        cases r with
        | nil => rw [List.cons_append, List.nil_append, put, he]
        | cons k r => rw [List.cons_append, List.cons_append, put, he]
      rw [hput, List.cons_append, look_folder_cons, named?_setNamed_self]
      exact look_put_below new n q e h

/-- Elsewhere no entry can be put. -/
theorem put_eq_self (new : Entry) (n : Text) : ∀ (e : Entry) {l : Location},
    e.look l ≠ some .folder → put new e (l ++ [n]) = e
  | file _, [], _ => rfl
  | file _, _ :: _, _ => rfl
  | folder entries, [], h => absurd (look_nil (folder entries)) h
  | folder entries, m :: r, h => by
    rw [look_folder_cons] at h
    have hcons : ∃ k s, r ++ [n] = k :: s := by
      cases r with
      | nil => exact ⟨n, [], rfl⟩
      | cons k r => exact ⟨k, r ++ [n], rfl⟩
    obtain ⟨k, s, hs⟩ := hcons
    rw [List.cons_append, hs, put]
    cases he : named? m entries with
    | none => rfl
    | some e =>
      rw [he] at h
      have ih : put new e (k :: s) = e := hs ▸ put_eq_self new n e h
      show folder (setNamed m (put new e (k :: s)) entries) = folder entries
      rw [ih, setNamed_eq_self he]
where
  setNamed_eq_self {name : Text} {x : Entry} : ∀ {entries : List (Text × Entry)},
      named? name entries = some x → setNamed name x entries = entries
    | [], h => by cases h
    | (k, y) :: r, h => by
      rw [named?] at h
      rw [setNamed]
      split_ifs at h ⊢ with hk
      · rw [Option.some.injEq] at h
        rw [h]
      · rw [setNamed_eq_self h]

/-- After an entry is put, a location shows what it showed, or what the entry shows. -/
theorem look_put_cases (new e : Entry) (l p : Location) : (put new e l).look p = e.look p ∨
    ∃ q, p = l ++ q ∧ (put new e l).look p = new.look q := by
  by_cases hp : l <+: p
  · obtain ⟨q, rfl⟩ := hp
    rcases List.eq_nil_or_concat' l with rfl | ⟨l, n, rfl⟩
    · exact .inr ⟨q, rfl, by rw [put]; rfl⟩
    · by_cases hl : e.look l = some .folder
      · refine .inr ⟨q, rfl, ?_⟩
        rw [List.append_assoc]
        exact look_put_below new n q e hl
      · exact .inl (by rw [put_eq_self new n e hl])
  · exact .inl (look_put_off new e l p hp)

/-- Writing a file shows at its place only. -/
theorem look_putFile_ne {e : Entry} {l p : Location} (hl : e.look l ≠ some .folder) (hp : p ≠ l)
    (c : Bytes) : (put (file c) e l).look p = e.look p := by
  rcases look_put_cases (file c) e l p with hsame | ⟨q, rfl, hq⟩
  · exact hsame
  · have h0 : q ≠ [] := fun h0 => hp (by rw [h0, List.append_nil])
    obtain ⟨n, q, rfl⟩ := List.exists_cons_of_ne_nil h0
    rw [hq, look_file_cons, look_below_of_not_folder h0 hl]

/-- A file that is written in the place of another shows at its place only. -/
theorem look_putFile {e : Entry} {l : Location} {c : Bytes} (h : e.look l = some (.file c))
    (c' : Bytes) (p : Location) :
    (put (file c') e l).look p = if p = l then some (.file c') else e.look p := by
  split_ifs with hp
  · subst hp
    rcases List.eq_nil_or_concat' p with rfl | ⟨l, n, rfl⟩
    · rw [put, look_nil]
      rfl
    · have hl : e.look l = some .folder := look_above (List.cons_ne_nil n []) (by simp [h])
      have := look_put_below (file c') n [] e hl
      rwa [look_nil] at this
  · exact look_putFile_ne (by simp [h]) hp c'

/-- Removing an entry changes nothing that is not at its place or below. -/
theorem look_erase_off : ∀ (e : Entry) (l : Location), SameOff l e (e.erase l)
  | _, [] => fun _ hp => absurd List.nil_prefix hp
  | file _, _ :: _ => SameOff.refl _ _
  | folder entries, [_] => sameOff_name fun _ hk => named?_dropNamed_ne hk entries
  | folder entries, n :: m :: r => by
    rw [erase]
    split
    · exact SameOff.refl _ _
    · rename_i e he
      exact sameOff_below he (look_erase_off e (m :: r))

theorem look_erase_below (e : Entry) {l : Location} (hl : l ≠ []) (q : Location) :
    (e.erase l).look (l ++ q) = none :=
  look_eq_none_iff.mpr (find?_erase_below e hl q)

/-- Removing an entry shows nothing new. -/
theorem look_erase_cases (e : Entry) (l p : Location) :
    (e.erase l).look p = e.look p ∨ (e.erase l).look p = none := by
  by_cases hp : l <+: p
  · obtain ⟨q, rfl⟩ := hp
    by_cases hl : l = []
    · subst hl
      exact .inl (by rw [erase])
    · exact .inr (look_erase_below e hl q)
  · exact .inl (look_erase_off e l p hp)

/-- Removing a file shows at its place only. -/
theorem look_eraseFile_ne {e : Entry} {l p : Location} (hl : e.look l ≠ some .folder)
    (hp : p ≠ l) : (e.erase l).look p = e.look p := by
  rcases look_erase_cases e l p with hsame | hnone
  · exact hsame
  · by_cases hpre : l <+: p
    · obtain ⟨q, rfl⟩ := hpre
      have h0 : q ≠ [] := fun h0 => hp (by rw [h0, List.append_nil])
      rw [hnone, look_below_of_not_folder h0 hl]
    · exact look_erase_off e l p hpre

/-- A file that is removed is missing at its place only. -/
theorem look_eraseFile {e : Entry} {l : Location} {c : Bytes} (h : e.look l = some (.file c))
    (hl : l ≠ []) (p : Location) :
    (e.erase l).look p = if p = l then none else e.look p := by
  split_ifs with hp
  · have hnone := look_erase_below e hl []
    rw [List.append_nil] at hnone
    rw [hp, hnone]
  · exact look_eraseFile_ne (by simp [h]) hp

/-! ### The files of a folder -/

theorem contentsAll_of_named {n : Text} {x : Entry} : ∀ {entries : List (Text × Entry)},
    named? n entries = some x → ([n], x) ∈ contentsAll entries ∧
      ∀ p ∈ contents x, (n :: p.1, p.2) ∈ contentsAll entries
  | [], h => by cases h
  | (k, y) :: r, h => by
    rw [named?] at h
    rw [contentsAll]
    split_ifs at h with hk
    · subst hk
      rw [Option.some.injEq] at h
      subst h
      exact ⟨by simp, fun p hp => by simp [hp]⟩
    · obtain ⟨h1, h2⟩ := contentsAll_of_named h
      exact ⟨by simp [h1], fun p hp => by simp [h2 p hp]⟩

/-- All that can be found below an entry is among its contents. -/
theorem mem_contents : ∀ {e x : Entry} {n : Text} {r : Location}, e.find? (n :: r) = some x →
    (n :: r, x) ∈ contents e
  | file _, _, _, _, h => by cases h
  | folder entries, x, n, r, h => by
    rw [find?] at h
    cases hn : named? n entries with
    | none => rw [hn] at h; cases h
    | some y =>
      rw [hn] at h
      obtain ⟨h1, h2⟩ := contentsAll_of_named hn
      cases r with
      | nil =>
        have hy : y = x := by simpa [find?_nil] using h
        exact hy ▸ h1
      | cons m r => exact h2 _ (mem_contents h)

theorem mem_insertLocation {a l : Location} : ∀ {ls : List Location},
    a ∈ insertLocation l ls ↔ a = l ∨ a ∈ ls
  | [] => by simp [insertLocation]
  | m :: r => by
    rw [insertLocation]
    split_ifs with h1 h2
    · simp [h1]
    · simp
    · rw [List.mem_cons, mem_insertLocation, List.mem_cons]
      exact or_left_comm

theorem sorted_insertLocation (l : Location) : ∀ {ls : List Location},
    ls.Pairwise (· < ·) → (insertLocation l ls).Pairwise (· < ·)
  | [], _ => by simp [insertLocation]
  | m :: r, h => by
    obtain ⟨hm, hr⟩ := List.pairwise_cons.mp h
    rw [insertLocation]
    split_ifs with h1 h2
    · exact h
    · refine List.pairwise_cons.mpr ⟨fun a ha => ?_, h⟩
      rcases List.mem_cons.mp ha with rfl | ha
      · exact h2
      · exact lt_trans h2 (hm a ha)
    · have hlt : m < l := lt_of_le_of_ne (not_lt.mp h2) (Ne.symm h1)
      refine List.pairwise_cons.mpr ⟨fun a ha => ?_, sorted_insertLocation l hr⟩
      rcases mem_insertLocation.mp ha with rfl | ha
      · exact hlt
      · exact hm a ha

/-- The files of a folder are listed in ascending order. -/
theorem files_sorted (e : Entry) : e.files.Pairwise (· < ·) := by
  unfold files
  induction ((contents e).map (·.1)).filter fun l => (e.find? l).any isFile with
  | nil => exact List.Pairwise.nil
  | cons l ls ih => exact sorted_insertLocation l ih

/-- In an ascending list what stands before an element is what is smaller. -/
theorem lt_iff_mem_front {front rest : List Location} {f l : Location}
    (hs : (front ++ f :: rest).Pairwise (· < ·)) (hl : l ∈ front ++ f :: rest) :
    l < f ↔ l ∈ front := by
  obtain ⟨-, hr, hcross⟩ := List.pairwise_append.mp hs
  obtain ⟨hf, -⟩ := List.pairwise_cons.mp hr
  refine ⟨fun hlt => ?_, fun hm => hcross l hm f (List.mem_cons_self ..)⟩
  rcases List.mem_append.mp hl with hm | hm
  · exact hm
  · rcases List.mem_cons.mp hm with rfl | hm
    · exact absurd hlt (lt_irrefl _)
    · exact absurd (lt_trans hlt (hf l hm)) (lt_irrefl _)

/-- The list holds the files below a folder and nothing else. -/
theorem mem_files_iff {entries : List (Text × Entry)} {l : Location} :
    l ∈ (folder entries).files ↔ ∃ c, (folder entries).look l = some (.file c) := by
  have hmem : ∀ ls : List Location, l ∈ ls.foldr insertLocation [] ↔ l ∈ ls := by
    intro ls
    induction ls with
    | nil => exact Iff.rfl
    | cons m ls ih => rw [List.foldr_cons, mem_insertLocation, ih, List.mem_cons]
  rw [files, hmem, List.mem_filter]
  constructor
  · rintro ⟨-, h⟩
    obtain ⟨x, hx, hf⟩ := (Option.any_eq_true _ _).mp h
    cases x with
    | file c => exact ⟨c, look_eq_file_iff.mpr hx⟩
    | folder _ => cases hf
  · rintro ⟨c, hc⟩
    rw [look_eq_file_iff] at hc
    refine ⟨?_, by rw [hc]; rfl⟩
    cases l with
    | nil => cases hc
    | cons n r => exact List.mem_map.mpr ⟨_, mem_contents hc, rfl⟩

/-- The files that a folder lists are those that are shown below it. -/
theorem mem_files_iff_below {e : Entry} {source : Location} {entries : List (Text × Entry)}
    (he : e.find? source = some (folder entries)) {f : Location} :
    f ∈ (folder entries).files ↔ ∃ c, e.look (source ++ f) = some (.file c) := by
  rw [mem_files_iff, look_append he]

theorem ne_nil_of_mem_files {entries : List (Text × Entry)} {f : Location}
    (h : f ∈ (folder entries).files) : f ≠ [] := by
  rintro rfl
  obtain ⟨c, hc⟩ := mem_files_iff.mp h
  rw [look_nil] at hc
  cases hc

end Entry

/-! ### Paths without double dots -/

namespace Path

theorem resolve_of_no_up {p : Path} (h : upName ∉ p.names) (working : Location) :
    p.resolve working = p.base working ++ p.names := by
  rw [resolve, follow_of_no_up h]

theorem resolve_ofLocation {l : Location} (h : upName ∉ l) (working : Location) :
    (ofLocation l).resolve working = l :=
  resolve_of_no_up h working

/-- The path to the folder that holds what a path leads to. -/
theorem resolve_parent {p : Path} (h : upName ∉ p.names) (working : Location) :
    p.parent.resolve working = p.base working ++ p.names.dropLast := by
  have hup : upName ∉ p.parent.names := fun hm => h (List.mem_of_mem_dropLast hm)
  rw [resolve_of_no_up hup]
  rfl

end Path

namespace Disk

open Entry

/-- Names are followed to the end if the last of them stands in a folder. -/
theorem walk_of_look {disk : Disk} : ∀ {names : List Text} {l : Location}, upName ∉ names →
    (names = [] ∨ disk.look (l ++ names.dropLast) = some .folder) →
    disk.walk l names = .ok (l ++ names)
  | [], l, _, _ => by rw [walk, List.append_nil]
  | n :: r, l, hup, h => by
    have hn : n ≠ upName := fun e => hup (e ▸ List.mem_cons_self ..)
    have hr : upName ∉ r := fun hm => hup (List.mem_cons_of_mem _ hm)
    have hlook := h.resolve_left (List.cons_ne_nil n r)
    have hl : disk.look l = some .folder ∧
        (r = [] ∨ disk.look (l ++ [n] ++ r.dropLast) = some .folder) := by
      cases r with
      | nil => exact ⟨by simpa using hlook, .inl rfl⟩
      | cons m r =>
        rw [List.dropLast_cons_cons, ← List.singleton_append, ← List.append_assoc] at hlook
        have hne : disk.look (l ++ ([n] ++ (m :: r).dropLast)) ≠ none := by
          rw [← List.append_assoc, hlook]
          exact Option.some_ne_none _
        exact ⟨look_above (by simp) hne, .inr hlook⟩
    obtain ⟨entries, he⟩ := look_eq_folder_iff.mp hl.1
    rw [walk, he]
    simp only [if_neg hn]
    rw [walk_of_look hr hl.2, List.append_assoc, List.singleton_append]

theorem look_of_walk {disk : Disk} : ∀ {names : List Text} {l p : Location}, upName ∉ names →
    names ≠ [] → disk.walk l names = .ok p → disk.look (l ++ names.dropLast) = some .folder
  | [], _, _, _, h0, _ => absurd rfl h0
  | n :: r, l, p, hup, _, h => by
    have hn : n ≠ upName := fun e => hup (e ▸ List.mem_cons_self ..)
    rw [walk] at h
    split at h
    · cases h
    · cases h
    · rename_i entries he
      rw [if_neg hn] at h
      cases r with
      | nil => simpa using look_eq_folder_iff.mpr ⟨entries, he⟩
      | cons m r =>
        have ih := look_of_walk (fun hm => hup (List.mem_cons_of_mem _ hm)) (by simp) h
        rwa [List.append_assoc] at ih

/-- A path without double dots leads to what stands where its names spell. -/
theorem locate_of_look {disk : Disk} {working : Location} {p : Path} (hup : upName ∉ p.names)
    (h : disk.look (p.resolve working) ≠ none) :
    disk.locate working p = .ok (p.resolve working) := by
  rw [Path.resolve_of_no_up hup] at h ⊢
  rw [locate_eq_walk (find?_front h)]
  refine walk_of_look hup ?_
  rcases List.eq_nil_or_concat' p.names with h0 | ⟨names, n, hn⟩
  · exact .inl h0
  · refine .inr ?_
    rw [hn, ← List.append_assoc] at h
    rw [hn, List.dropLast_concat]
    exact look_above (by simp) h

theorem entry?_eq_find? {disk : Disk} {working : Location} {p : Path} (hup : upName ∉ p.names) :
    disk.entry? working p = disk.find? (p.resolve working) := by
  unfold entry?
  by_cases h : disk.look (p.resolve working) = none
  · rw [look_eq_none_iff] at h
    cases hl : disk.locate working p with
    | error fault => exact h.symm
    | ok l => rw [locate_eq_resolve hl]
  · rw [locate_of_look hup h]

theorem readFile_of_look {disk : Disk} {working : Location} {p : Path} {c : Bytes}
    (hup : upName ∉ p.names) (h : disk.look (p.resolve working) = some (.file c)) :
    disk.readFile working p = .ok c := by
  unfold readFile
  rw [locate_of_look hup (by simp [h])]
  simp only [look_eq_file_iff.mp h]

/-- A file that could be written stands at the location that was found. -/
theorem locate_of_writeFile {disk after : Disk} {working : Location} {p : Path} {content : Bytes}
    (h : disk.writeFile working p content = .ok after) :
    ∃ l, disk.locate working p = .ok l ∧ disk.look l ≠ some .folder ∧
      after = put (.file content) disk l := by
  unfold writeFile at h
  split at h
  · cases h
  · rename_i l hl
    split at h
    · cases h
    · rename_i hnot
      cases h
      refine ⟨l, hl, fun hfolder => ?_, rfl⟩
      obtain ⟨entries, he⟩ := look_eq_folder_iff.mp hfolder
      exact hnot entries he

/-- A file that could be written stands where the path leads. -/
theorem writeFile_eq_ok {disk after : Disk} {working : Location} {p : Path} {content : Bytes}
    (h : disk.writeFile working p content = .ok after) :
    disk.look (p.resolve working) ≠ some .folder ∧
      after = put (.file content) disk (p.resolve working) := by
  obtain ⟨l, hl, hnot, hafter⟩ := locate_of_writeFile h
  rw [← locate_eq_resolve hl]
  exact ⟨hnot, hafter⟩

/-- What could be removed was a file where the path leads. -/
theorem removeFile_eq_ok {disk after : Disk} {working : Location} {p : Path}
    (h : disk.removeFile working p = .ok after) :
    (∃ content, disk.look (p.resolve working) = some (.file content)) ∧
      after = disk.erase (p.resolve working) := by
  unfold removeFile at h
  split at h
  · cases h
  · rename_i l hl
    rw [← locate_eq_resolve hl]
    split at h
    · cases h
    · cases h
    · rename_i content hc
      cases h
      exact ⟨⟨content, look_eq_file_iff.mpr hc⟩, rfl⟩

/-- A file that is there can be removed. -/
theorem removeFile_of_look {disk : Disk} {working : Location} {p : Path} {c : Bytes}
    (hup : upName ∉ p.names) (h : disk.look (p.resolve working) = some (.file c)) :
    disk.removeFile working p = .ok (disk.erase (p.resolve working)) := by
  unfold removeFile
  rw [locate_of_look hup (by simp [h])]
  simp only [look_eq_file_iff.mp h]

/-- A file in the place of another can be written. -/
theorem writeFile_of_look {disk : Disk} {working : Location} {p : Path} {c : Bytes}
    (hup : upName ∉ p.names) (h : disk.look (p.resolve working) = some (.file c)) (c' : Bytes) :
    disk.writeFile working p c' = .ok (put (.file c') disk (p.resolve working)) := by
  unfold writeFile
  rw [locate_of_look hup (by simp [h])]
  simp only [look_eq_file_iff.mp h]

/-! ### Making folders along a path -/

/-- A folder that is there need not be made. -/
theorem makeFolders_of_look {disk : Disk} {working : Location} {p : Path} (hup : upName ∉ p.names)
    (h : disk.look (p.resolve working) = some .folder) :
    disk.makeFolders working p = (.ok (), disk) := by
  obtain ⟨entries, he⟩ := look_eq_folder_iff.mp h
  have hmake : disk.makeFolder working p = .error .exists := by
    unfold makeFolder
    rw [locate_of_look hup (by simp [h])]
    simp only [he]
  have hensure : disk.ensureFolder working p = (.ok (), disk) := by
    unfold ensureFolder hasFolder
    rw [hmake, entry?_eq_find? hup, he]
    rfl
  have hp : (⟨p.start, p.names.reverse.reverse⟩ : Path) = p := by rw [List.reverse_reverse]
  unfold makeFolders
  cases hr : p.names.reverse with
  | nil =>
    rw [hr] at hp
    rw [makeFoldersUp]
    exact hp ▸ hensure
  | cons n r =>
    rw [hr] at hp
    rw [makeFoldersUp, hp, hmake]
    exact hensure

/-- The disks differ only in folders that the second one has on the way to a location,
where the first one has nothing. -/
def GrownTo (l : Location) (before after : Disk) : Prop :=
  ∀ q, after.look q = before.look q ∨
    (q <+: l ∧ before.look q = none ∧ after.look q = some .folder)

theorem GrownTo.refl (l : Location) (disk : Disk) : GrownTo l disk disk := fun _ => .inl rfl

theorem GrownTo.trans {l : Location} {a b c : Disk} (h : GrownTo l a b) (h' : GrownTo l b c) :
    GrownTo l a c := by
  intro q
  rcases h' q with h2 | ⟨hq, h2, h3⟩
  · rw [h2]
    exact h q
  · rcases h q with h1 | ⟨-, -, h1⟩
    · exact .inr ⟨hq, h1 ▸ h2, h3⟩
    · rw [h2] at h1
      cases h1

theorem GrownTo.mono {l l' : Location} (hl : l <+: l') {a b : Disk} (h : GrownTo l a b) :
    GrownTo l' a b :=
  fun q => (h q).imp_right fun ⟨hq, h2⟩ => ⟨hq.trans hl, h2⟩

theorem makeFolder_grownTo {disk made : Disk} {working : Location} {p : Path}
    (h : disk.makeFolder working p = .ok made) : GrownTo (p.resolve working) disk made := by
  unfold makeFolder at h
  split at h
  · cases h
  · rename_i l hl
    split at h
    · cases h
    · rename_i hnone
      cases h
      intro q
      rcases look_put_cases (.folder []) disk l q with hq | ⟨r, rfl, hr⟩
      · exact .inl hq
      · have hbelow : disk.look (l ++ r) = none := by
          rw [look_eq_none_iff, find?_append, hnone]
          rfl
        cases r with
        | nil =>
          refine .inr ⟨?_, hbelow, hr⟩
          rw [List.append_nil, locate_eq_resolve hl]
        | cons n r =>
          rw [look_folder_cons] at hr
          exact .inl (hr.trans hbelow.symm)

/-- Making folders along a path without double dots adds folders on the way to it, also
where it fails. -/
theorem makeFolders_grownTo (disk : Disk) (working : Location) {p : Path} (hup : upName ∉ p.names) :
    GrownTo (p.resolve working) disk (disk.makeFolders working p).2 := by
  refine makeFolders_induct (GrownTo.refl _) GrownTo.trans (fun {names d made} hnames hmade => ?_)
    disk
  have hle : (⟨p.start, names⟩ : Path).resolve working <+: p.resolve working := by
    rw [Path.resolve_of_no_up fun hm => hup (hnames.subset hm), Path.resolve_of_no_up hup]
    exact (List.prefix_append_right_inj _).mpr hnames
  exact (makeFolder_grownTo hmade).mono hle

end Disk
end Handout
