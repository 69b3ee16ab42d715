/-
# What makes a marker

The markers of a text are told without the search. Every `>` ends a field, which begins
behind the `>` before it. A field that does not end with `/>` is looked at for the
places where `//<` and a word character stand: from each of them a marker could run
to the end of the field, whatever else is in between (`Opens`). The opening marker of
the field is the one from the first such place (`OpensFirst`).

This is what the search makes of it, since it tries the places from left to right: a
marker that goes on over a place is one of the same field (`Opens.end_eq`), and where
one could begin, a marker of the search begins or goes on (`exists_opening_over`). The
search for closing markers leaves out none, since none begins inside of another.

With their order this leaves no choice: the markers of a text are the one list that
is as the grammar says (`markers_eq_iff`).

Key definitions: `fieldStart`, `NameBegins`, `Opens`, `OpensFirst`, `Closes`, `Declared`.
Key theorems: `opening?_drop_iff`, `mem_openingsOf_iff`, `mem_closingsOf_iff`,
`markers_eq_iff`.
-/
import Handout.Proofs.Nesting
import Handout.Proofs.Searching
import Mathlib.Data.List.Sort

namespace Handout

open Marker

/-! ### Fields -/

/-- The index behind the last `>` before index `g`, or 0. -/
def fieldStart (t : Text) : (g : Nat) → Nat
  | 0 => 0
  | g + 1 => if t[g]? = some '>' then g + 1 else fieldStart t g

theorem fieldStart_le_iff {t : Text} {p : Nat} : ∀ {g : Nat},
    fieldStart t g ≤ p ↔ ∀ i, p ≤ i → i < g → t[i]? ≠ some '>'
  | 0 => by simp [fieldStart]
  | g + 1 => by
    rw [fieldStart]
    by_cases hg : t[g]? = some '>'
    · rw [if_pos hg]
      refine ⟨fun h i hi hlt => absurd hlt (by omega), fun h => ?_⟩
      by_contra hp
      exact h g (by omega) (by omega) hg
    · rw [if_neg hg, fieldStart_le_iff]
      refine ⟨fun h i hi hlt => ?_, fun h i hi hlt => h i hi (by omega)⟩
      rcases Nat.lt_succ_iff_lt_or_eq.mp hlt with hlt | rfl
      · exact h i hi hlt
      · exact hg

/-- An index is in one field only. -/
theorem eq_of_fieldStart_le {t : Text} {p g g' : Nat} (hg : t[g]? = some '>')
    (hg' : t[g']? = some '>') (hp : fieldStart t g ≤ p) (hp' : fieldStart t g' ≤ p) (hle : p ≤ g)
    (hle' : p ≤ g') : g = g' := by
  rcases Nat.lt_trichotomy g g' with hlt | heq | hlt
  · exact absurd hg (fieldStart_le_iff.mp hp' g hle hlt)
  · exact heq
  · exact absurd hg' (fieldStart_le_iff.mp hp g' hle' hlt)

/-- A slice and what follows it. -/
theorem Text.slice_append_drop (t : Text) (start length : Nat) :
    t.slice start length ++ t.drop (start + length) = t.drop start := by
  rw [slice, ← List.drop_drop, List.take_append_drop]

/-- What a text holds where it goes on with a word. -/
theorem getElem?_of_drop {t : Text} {p : Nat} {front r : Text} (h : t.drop p = front ++ r) {i : Nat}
    (hi : i < front.length) : t[p + i]? = front[i]? := by
  rw [← List.getElem?_drop, h, List.getElem?_append_left hi]

/-! ### Places where a marker could begin -/

/-- At the index stand `//<` and a word character. -/
def NameBegins (t : Text) (p : Nat) : Prop :=
  t.slice p 3 = ['/', '/', '<'] ∧ ∃ c, t[p + 3]? = some c ∧ isWord c = true

/-- The character before the index is a `/`. -/
def BehindSlash (t : Text) (g : Nat) : Prop :=
  0 < g ∧ t[g - 1]? = some '/'

/-- A marker could run from its start to the `>` at index `g`, which ends the field. -/
structure Opens (t : Text) (g : Nat) (m : Opening) : Prop where
  ends : t[g]? = some '>'
  bare : ¬ BehindSlash t g
  field : fieldStart t g ≤ m.start
  inside : m.start + 3 < g
  begins : NameBegins t m.start
  name : m.name = Text.word (t.drop (m.start + 3))
  region : m.region = t.slice (m.start + 3 + m.name.length) (g - (m.start + 3 + m.name.length))
  stop : m.stop = g + 1

/-- The first marker of the field: none could begin before it. -/
structure OpensFirst (t : Text) (g : Nat) (m : Opening) : Prop extends Opens t g m where
  first : ∀ p, fieldStart t g ≤ p → p < m.start → ¬ NameBegins t p

/-- At each place of a field where a name begins a marker could open. -/
theorem exists_opens {t : Text} {g p : Nat} (ends : t[g]? = some '>') (bare : ¬ BehindSlash t g)
    (field : fieldStart t g ≤ p) (inside : p + 3 < g) (begins : NameBegins t p) :
    ∃ m, m.start = p ∧ Opens t g m := by
  let name := Text.word (t.drop (p + 3))
  let region := t.slice (p + 3 + name.length) (g - (p + 3 + name.length))
  exact ⟨⟨p, g + 1 - p, name, region⟩, rfl, ends, bare, field, inside, begins, rfl, rfl,
    Nat.add_sub_of_le (show p ≤ g + 1 by omega)⟩

namespace Opens

variable {t : Text} {g : Nat} {m : Opening}

theorem name_append (h : Opens t g m) :
    m.name ++ Text.afterWord (t.drop (m.start + 3)) = t.drop (m.start + 3) := by
  rw [h.name, Text.word_append_afterWord]

/-- The rest of the text behind the name. -/
theorem drop_name (h : Opens t g m) :
    t.drop (m.start + 3 + m.name.length) = Text.afterWord (t.drop (m.start + 3)) := by
  have hsplit := h.name_append
  rw [← List.drop_drop, ← hsplit, List.drop_left, hsplit]

/-- The name ends in the field. -/
theorem name_le (h : Opens t g m) : m.start + 3 + m.name.length ≤ g := by
  by_contra hlt
  have hinside := h.inside
  have hget := getElem?_of_drop (i := g - (m.start + 3)) h.name_append.symm (by omega)
  rw [Nat.add_sub_of_le h.inside.le, h.ends] at hget
  have hmem := List.mem_of_getElem? hget.symm
  rw [h.name] at hmem
  exact absurd (Text.isWord_of_mem_word hmem) (by decide)

theorem length_region (h : Opens t g m) : m.start + 3 + m.name.length + m.region.length = g := by
  obtain ⟨hlt, -⟩ := List.getElem?_eq_some_iff.mp h.ends
  have hle := h.name_le
  rw [h.region, Text.slice, List.length_take, List.length_drop]
  omega

/-- The region runs to the end of the field. -/
theorem afterWord_eq (h : Opens t g m) :
    Text.afterWord (t.drop (m.start + 3)) = m.region ++ '>' :: t.drop (g + 1) := by
  obtain ⟨hlt, hget⟩ := List.getElem?_eq_some_iff.mp h.ends
  have hends : '>' :: t.drop (g + 1) = t.drop g := by
    rw [List.drop_eq_getElem_cons hlt, hget]
  have hslice := Text.slice_append_drop t (m.start + 3 + m.name.length)
    (g - (m.start + 3 + m.name.length))
  rw [← h.region, Nat.add_sub_of_le h.name_le] at hslice
  rw [← h.drop_name, hends, hslice]

/-- The text of the marker stands at its start. -/
theorem drop_eq (h : Opens t g m) :
    t.drop m.start = openingText m.name m.region ++ t.drop (g + 1) := by
  have hmark := Text.slice_append_drop t m.start 3
  rw [h.begins.1] at hmark
  rw [← hmark, ← h.name_append, h.afterWord_eq]
  simp [openingText_eq]

/-- What stands at an index of the region. -/
theorem getElem?_region (h : Opens t g m) {i : Nat} (hi : i < m.region.length) :
    t[m.start + 3 + m.name.length + i]? = m.region[i]? :=
  getElem?_of_drop (h.drop_name.trans h.afterWord_eq) hi

/-- The name and the region are such that they make a marker. -/
theorem isOpening (h : Opens t g m) : IsOpening m.name m.region where
  isName := by
    obtain ⟨c, hc, hword⟩ := h.begins.2
    obtain ⟨hlt, hget⟩ := List.getElem?_eq_some_iff.mp hc
    rw [h.name, List.drop_eq_getElem_cons hlt, hget]
    refine ⟨by simp [Text.word, hword], fun c hc => Text.isWord_of_mem_word hc⟩
  head := by
    intro c hc
    apply Text.head_afterWord (t := t.drop (m.start + 3))
    rw [h.afterWord_eq, List.head?_append, hc]
    rfl
  not_mem := by
    intro hmem
    obtain ⟨i, hi, hget⟩ := List.mem_iff_getElem.mp hmem
    have hlen := h.length_region
    refine fieldStart_le_iff.mp h.field (m.start + 3 + m.name.length + i) (by omega) (by omega) ?_
    rw [h.getElem?_region hi, List.getElem?_eq_getElem hi, hget]
  last := by
    intro hlast
    rw [List.getLast?_eq_getElem?] at hlast
    obtain ⟨hi, -⟩ := List.getElem?_eq_some_iff.mp hlast
    have hlen := h.length_region
    refine h.bare ⟨by omega, ?_⟩
    rw [← h.getElem?_region hi] at hlast
    rwa [show g - 1 = m.start + 3 + m.name.length + (m.region.length - 1) by omega]

/-- The start and the field leave no choice. -/
theorem eq_of_start_eq {m' : Opening} (h : Opens t g m) (h' : Opens t g m')
    (he : m.start = m'.start) : m = m' := by
  have hname : m.name = m'.name := by rw [h.name, h'.name, he]
  have hregion : m.region = m'.region := by rw [h.region, h'.region, he, hname]
  have hlength : m.length = m'.length := by
    have hstop := h.stop.trans h'.stop.symm
    rw [Opening.stop, Opening.stop, he] at hstop
    exact Nat.add_left_cancel hstop
  cases m
  cases m'
  simp_all only

/-- A marker that goes on over the start of another is of the same field. -/
theorem end_eq {g' : Nat} {m' : Opening} (h : Opens t g m) (h' : Opens t g' m')
    (hle : m'.start ≤ m.start) (hlt : m.start < m'.stop) : g' = g := by
  rw [h'.stop] at hlt
  have := h.inside
  exact eq_of_fieldStart_le h'.ends h.ends (h'.field.trans hle) h.field (by omega) (by omega)

end Opens

/-- The `>` of an opening marker does not follow a `/`. -/
theorem IsOpening.getLast?_front {name region : Text} (h : IsOpening name region) :
    ('/' :: '/' :: '<' :: (name ++ region)).getLast? ≠ some '/' := by
  have hassoc : '/' :: '/' :: '<' :: (name ++ region) = ['/', '/', '<'] ++ name ++ region := by simp
  rw [hassoc]
  by_cases hregion : region = []
  · rw [hregion, List.append_nil, List.getLast?_append_of_ne_nil _ h.isName.ne_nil]
    exact fun hlast => h.isName.not_mem (by decide) (List.mem_of_getLast? hlast)
  · rw [List.getLast?_append_of_ne_nil _ hregion]
    exact h.last

/-- A marker that is read at its start is one that could open there. -/
theorem exists_opens_of_opening? {t : Text} {m : Opening}
    (h : opening? m.start (t.drop m.start) = some m) : ∃ g, Opens t g m := by
  obtain ⟨hm, -, hl, r, hr⟩ := exists_of_opening? h
  have hname : t.drop (m.start + 3) = m.name ++ (m.region ++ '>' :: r) := by
    rw [← List.drop_drop, hr]
    simp [openingText_eq]
  have hpos := List.length_pos_iff.mpr hm.isName.ne_nil
  -- The marker without its `>`: its characters are those of the text up to the end of the field.
  rw [openingText_append] at hr
  generalize hfront : '/' :: '/' :: '<' :: (m.name ++ m.region) = front at hr
  have hlen : front.length = 3 + m.name.length + m.region.length := by
    rw [← hfront]
    simp only [List.length_cons, List.length_append]
    omega
  have hinside : m.start + 3 < m.start + front.length := by omega
  refine ⟨m.start + front.length, {
    ends := ?ends, bare := ?bare, field := ?field, inside := hinside, begins := ⟨?slice, ?letter⟩
    name := ?name, region := ?region, stop := ?stop }⟩
  case ends =>
    rw [← List.getElem?_drop, hr, List.getElem?_append_right le_rfl, Nat.sub_self]
    rfl
  case bare =>
    rintro ⟨-, hslash⟩
    rw [Nat.add_sub_assoc (by omega), getElem?_of_drop hr (by omega),
      ← List.getLast?_eq_getElem?, ← hfront] at hslash
    exact hm.getLast?_front hslash
  case field =>
    rw [fieldStart_le_iff]
    intro i hi hlt hgt
    rw [← Nat.add_sub_of_le hi, getElem?_of_drop hr (by omega), ← hfront] at hgt
    exact hm.front_not_mem (List.mem_of_getElem? hgt)
  case slice =>
    rw [Text.slice, hr, ← hfront]
    rfl
  case letter =>
    obtain ⟨c, name, hcons⟩ := List.exists_cons_of_ne_nil hm.isName.ne_nil
    refine ⟨c, ?_, hm.isName.word c (hcons ▸ List.mem_cons_self ..)⟩
    rw [getElem?_of_drop hr (by omega), ← hfront, hcons]
    rfl
  case name =>
    rw [hname, Text.word_append hm.isName.word (hm.head_append r)]
  case region =>
    rw [Text.slice, ← List.drop_drop, hname, List.drop_left, List.take_left' (by omega)]
  case stop =>
    rw [Opening.stop, hl, length_openingText, hlen]
    rfl

/-- A marker is read exactly where it could open. -/
theorem opening?_drop_iff {t : Text} {m : Opening} :
    opening? m.start (t.drop m.start) = some m ↔ ∃ g, Opens t g m := by
  refine ⟨exists_opens_of_opening?, ?_⟩
  rintro ⟨g, h⟩
  refine opening?_eq_some_iff.mpr ⟨h.isOpening, rfl, ?_, _, h.drop_eq⟩
  have := h.length_region
  have := h.stop
  rw [length_openingText]
  simp only [Opening.stop] at this
  omega

/-! ### The search for opening markers -/

/-- The pattern reads a marker where it could open. -/
theorem readAt_openingPattern_iff {t : Text} {x : Occurrence (Text × Text)} :
    Opening.pattern.readAt none t x.start = some (x.value, x.length) ↔
      ∃ g, Opens t g (.ofOccurrence x) := by
  rw [← opening?_drop_iff, opening?_start _ 0]
  unfold Opening.pattern
  rw [Pattern.readAt_const rfl]
  obtain ⟨start, length, name, region⟩ := x
  cases hm : opening? 0 (t.drop start) with
  | none => simp [Opening.ofOccurrence, hm]
  | some m =>
    simp only [Opening.ofOccurrence, hm, Option.map_some, Option.some.injEq, Prod.mk.injEq,
      Opening.mk.injEq, true_and]
    rw [and_comm]

theorem exists_opens_of_mem {t : Text} {m : Opening} (h : m ∈ openingsOf t) :
    ∃ g, Opens t g m := by
  obtain ⟨x, hx, rfl⟩ := List.mem_map.mp h
  exact readAt_openingPattern_iff.mp (Pattern.mem_occurrences_iff.mp hx).1

/-- Where a marker could open, a marker of the search begins or goes on. It ends at
the same `>`. -/
theorem exists_opening_over {t : Text} {g : Nat} {m : Opening} (h : Opens t g m) :
    ∃ m' ∈ openingsOf t, m'.start ≤ m.start ∧ Opens t g m' := by
  have hpos : 0 < m.length := by
    have hstop := h.stop
    have hinside := h.inside
    rw [Opening.stop] at hstop
    omega
  have hread := readAt_openingPattern_iff (x := ⟨m.start, m.length, m.name, m.region⟩).mpr ⟨g, h⟩
  obtain ⟨x, hx, hle, hlt⟩ := Pattern.exists_mem_occurrences hread hpos
  have hmem : Opening.ofOccurrence x ∈ openingsOf t := List.mem_map_of_mem hx
  obtain ⟨g', hg'⟩ := exists_opens_of_mem hmem
  refine ⟨_, hmem, hle, ?_⟩
  rwa [← h.end_eq hg' hle hlt]

/-- The search finds one marker at most in each field. -/
theorem not_start_lt_of_opens {t : Text} {g : Nat} {m m' : Opening} (hm : m ∈ openingsOf t)
    (hm' : m' ∈ openingsOf t) (h : Opens t g m) (h' : Opens t g m') : ¬ m.start < m'.start := by
  obtain ⟨x, hx, rfl⟩ := List.mem_map.mp hm
  obtain ⟨x', hx', rfl⟩ := List.mem_map.mp hm'
  intro hlt
  have hstop : (Opening.ofOccurrence x).stop ≤ x'.start := Pattern.stop_le_of_start_lt hx hx' hlt
  have hinside : x'.start + 3 < g := h'.inside
  rw [h.stop] at hstop
  omega

/-- **The opening markers of a text.** The search finds in each field the first marker
that could open there. -/
theorem mem_openingsOf_iff {t : Text} {m : Opening} :
    m ∈ openingsOf t ↔ ∃ g, OpensFirst t g m := by
  constructor
  · intro hm
    obtain ⟨g, h⟩ := exists_opens_of_mem hm
    refine ⟨g, h, fun p hp hlt hbegins => ?_⟩
    obtain ⟨m', rfl, h'⟩ := exists_opens h.ends h.bare hp (by have := h.inside; omega) hbegins
    obtain ⟨m'', hm'', hle, h''⟩ := exists_opening_over h'
    exact not_start_lt_of_opens hm'' hm h'' h (hle.trans_lt hlt)
  · rintro ⟨g, h⟩
    obtain ⟨m', hm', hle, h'⟩ := exists_opening_over h.toOpens
    have hstart : m'.start = m.start := by
      refine hle.antisymm (Nat.le_of_not_lt fun hlt => ?_)
      exact h.first _ h'.field hlt h'.begins
    rwa [← h'.eq_of_start_eq h.toOpens hstart]

/-! ### The search for closing markers -/

/-- At the start of the marker stands its text. -/
structure Closes (t : Text) (m : Closing) : Prop where
  isName : IsName m.name
  length : m.length = (closingText m.name).length
  text : t.slice m.start m.length = closingText m.name

/-- A closing marker is read exactly where its text stands. -/
theorem closing?_drop_iff {t : Text} {m : Closing} :
    closing? m.start (t.drop m.start) = some m ↔ Closes t m := by
  rw [closing?_eq_some_iff]
  constructor
  · rintro ⟨hm, -, hl, r, hr⟩
    exact ⟨hm, hl, by rw [Text.slice, hr, List.take_left' hl.symm]⟩
  · intro h
    refine ⟨h.isName, rfl, h.length, t.drop (m.start + m.length), ?_⟩
    rw [← h.text, Text.slice_append_drop]

/-- The pattern reads a marker where its text stands. -/
theorem readAt_closingPattern_iff {t : Text} {x : Occurrence Text} :
    Closing.pattern.readAt none t x.start = some (x.value, x.length) ↔
      Closes t (.ofOccurrence x) := by
  rw [← closing?_drop_iff, closing?_start _ 0]
  unfold Closing.pattern
  rw [Pattern.readAt_const rfl]
  obtain ⟨start, length, name⟩ := x
  cases hm : closing? 0 (t.drop start) with
  | none => simp [Closing.ofOccurrence, hm]
  | some m =>
    simp only [Closing.ofOccurrence, hm, Option.map_some, Option.some.injEq, Prod.mk.injEq,
      Closing.mk.injEq, true_and]
    rw [and_comm]

/-- No closing marker begins inside of another. -/
theorem Closes.stop_le {t : Text} {m m' : Closing} (h : Closes t m) (h' : Closes t m')
    (hlt : m.start < m'.start) : m.stop ≤ m'.start := by
  by_contra hover
  have hread := closing?_drop_iff.mpr h
  have hread' := closing?_drop_iff.mpr h'
  obtain ⟨i, hi⟩ : ∃ i, m'.start = m.start + (i + 1) := ⟨m'.start - m.start - 1, by omega⟩
  cases hr : t.drop m.start with
  | nil =>
    rw [hr] at hread
    cases hread
  | cons c r =>
    rw [hr] at hread
    have hnone := closing?_drop_eq_none hread i (by rw [Closing.stop] at hover; omega)
    rw [hi, ← List.drop_drop, hr, List.drop_succ_cons, closing?_start _ 0, hnone] at hread'
    cases hread'

/-- **The closing markers of a text.** The search finds all of them. -/
theorem mem_closingsOf_iff {t : Text} {m : Closing} : m ∈ closingsOf t ↔ Closes t m := by
  rw [closingsOf, List.mem_map]
  constructor
  · rintro ⟨x, hx, rfl⟩
    exact readAt_closingPattern_iff.mp (Pattern.mem_occurrences_iff.mp hx).1
  · intro h
    refine ⟨⟨m.start, m.length, m.name⟩, Pattern.mem_occurrences_iff.mpr ⟨?_, ?_⟩, rfl⟩
    · exact readAt_closingPattern_iff.mpr h
    · intro y hy hlt
      have hy' := readAt_closingPattern_iff.mp (Pattern.mem_occurrences_iff.mp hy).1
      exact hy'.stop_le h hlt

/-! ### All markers -/

/-- The markers of a text as the grammar has them. -/
structure Declared (t : Text) (ms : List Marker) : Prop where
  ordered : ms.Pairwise fun m m' => m.start < m'.start
  fields : ∀ g, t[g]? = some '>' → ¬ BehindSlash t g →
    ((∃ m, opening m ∈ ms ∧ m.stop = g + 1) ↔
      ∃ p, fieldStart t g ≤ p ∧ p + 3 < g ∧ NameBegins t p)
  openings : ∀ m, opening m ∈ ms ↔ ∃ g, OpensFirst t g m
  closings : ∀ m, closing m ∈ ms ↔ Closes t m

theorem opening_mem_markers_iff {t : Text} {m : Opening} :
    opening m ∈ markers t ↔ ∃ g, OpensFirst t g m := by
  rw [← mem_openingsOf_iff, ← (markersOf_markers t).openings, List.mem_filterMap]
  constructor
  · exact fun hm => ⟨_, hm, rfl⟩
  · rintro ⟨m' | m', hm', h⟩
    · cases h
      exact hm'
    · cases h

theorem closing_mem_markers_iff {t : Text} {m : Closing} :
    closing m ∈ markers t ↔ Closes t m := by
  rw [← mem_closingsOf_iff, ← (markersOf_markers t).closings, List.mem_filterMap]
  constructor
  · exact fun hm => ⟨_, hm, rfl⟩
  · rintro ⟨m' | m', hm', h⟩
    · cases h
    · cases h
      exact hm'

theorem declared_markers (t : Text) : Declared t (markers t) where
  ordered := (markersOf_markers t).ordered
  fields := by
    intro g ends bare
    constructor
    · rintro ⟨m, hm, hstop⟩
      obtain ⟨g', h⟩ := opening_mem_markers_iff.mp hm
      cases Nat.succ.inj (h.stop.symm.trans hstop)
      exact ⟨m.start, h.field, h.inside, h.begins⟩
    · rintro ⟨p, field, inside, begins⟩
      obtain ⟨m, -, h⟩ := exists_opens ends bare field inside begins
      obtain ⟨m', hm', -, h'⟩ := exists_opening_over h
      rw [mem_openingsOf_iff, ← opening_mem_markers_iff] at hm'
      exact ⟨m', hm', h'.stop⟩
  openings _ := opening_mem_markers_iff
  closings _ := closing_mem_markers_iff

/-- **What makes a marker.** The markers of a text are the one list that is in order
and holds the first marker of each field and all closing markers. -/
theorem markers_eq_iff {t : Text} {ms : List Marker} : markers t = ms ↔ Declared t ms := by
  refine ⟨fun h => h ▸ declared_markers t, fun h => ?_⟩
  have h' := declared_markers t
  have hmem : ∀ m, m ∈ markers t ↔ m ∈ ms := by
    rintro (m | m)
    · rw [h.openings, h'.openings]
    · rw [h.closings, h'.closings]
  have hnodup : ∀ {l : List Marker}, l.Pairwise (fun m m' => m.start < m'.start) → l.Nodup :=
    fun hl => hl.imp fun hlt he => (he ▸ hlt).ne rfl
  refine List.Perm.eq_of_pairwise (fun _ _ _ _ hlt hgt => absurd hlt hgt.asymm) h'.ordered
    h.ordered ?_
  rwa [List.perm_ext_iff_of_nodup (hnodup h'.ordered) (hnodup h.ordered)]

/-- A field that ends with `/>` has no marker, and one in which two names begin has one. -/
example : markers "//<a/>//<b //<c\n>//</b>".toList =
    [.opening ⟨6, 11, ['b'], " //<c\n".toList⟩, .closing ⟨17, 6, ['b']⟩] := by decide

end Handout
