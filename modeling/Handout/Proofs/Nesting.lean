/-
# Markers as brackets

The markers of a text are those of two searches that know nothing of each other,
one for opening and one for closing markers, in the order of their first characters
(`MarkersOf`, `markersOf_markers`). No two of them begin at the same character.

Read as brackets that are labelled with names, the markers are balanced if every
opening one is closed by one of its name and what lies between is balanced
(`Balanced`). A text is read as a forest exactly then (`parseForest_balanced`). The
walk over the markers is followed with the markers it has read: the open tags are
the opening markers that are not closed yet, each with a balanced word behind it
(`Pending`). A step that opens or closes a tag keeps this, and a step that cannot
be made is a closing marker behind a balanced word, or behind an open tag of
another name (`growForest_pending`). So the walk ends with no open tag if as many
markers close as open.

In the forest a parent comes before its children, so its opening markers come in
the order of the text. The closing marker of a tag is the one bracket that matches
its opening one (`Matching`, `Matching.unique`), and none is used twice (`Paired`).

Key definitions: `MarkersOf`, `Balanced`, `Pending`, `Matching`, `Refused`,
`Paired`.
Key theorems: `markersOf_markers`, `growForest_pending`, `Balanced.growForest_eq`,
`Matching.unique`, `parseForest_balanced`.
-/
import Handout.Proofs.Tiling
import Mathlib.Data.List.Nodup
import Mathlib.Data.List.Perm.Basic

namespace Handout

open Marker

/-! ### The two searches -/

/-- Reads the name and the region of an opening marker. -/
def Opening.pattern : Pattern (Text × Text) := fun _ t =>
  (Marker.opening? 0 t).map fun m => ((m.name, m.region), m.length)

/-- Reads the name of a closing marker. -/
def Closing.pattern : Pattern Text := fun _ t =>
  (Marker.closing? 0 t).map fun m => (m.name, m.length)

/-- The marker that a search has found. -/
def Opening.ofOccurrence (x : Occurrence (Text × Text)) : Opening :=
  ⟨x.start, x.length, x.value.1, x.value.2⟩

/-- The marker that a search has found. -/
def Closing.ofOccurrence (x : Occurrence Text) : Closing :=
  ⟨x.start, x.length, x.value⟩

/-- The opening markers that are found when nothing else is looked for. -/
def openingsOf (t : Text) : List Opening :=
  (Opening.pattern.occurrences t).map Opening.ofOccurrence

/-- The closing markers that are found when nothing else is looked for. -/
def closingsOf (t : Text) : List Closing :=
  (Closing.pattern.occurrences t).map Closing.ofOccurrence

namespace Marker

/-- The opening marker that a marker is. -/
def asOpening : Marker → Option Opening
  | opening m => some m
  | closing _ => none

/-- The closing marker that a marker is. -/
def asClosing : Marker → Option Closing
  | opening _ => none
  | closing m => some m

/-- The search for opening markers does not see the closing ones. -/
theorem filterMap_asOpening_scan : ∀ (t : Text) (s covered : Nat) (before : Option Char),
    (scan s covered t).filterMap asOpening =
      (Opening.pattern.occurrencesFrom s covered before t).map Opening.ofOccurrence
  | [], _, _, _ => by simp [scan, Pattern.occurrencesFrom]
  | c :: r, s, covered, before => by
    rw [scan_cons]
    have hpattern : Opening.pattern before (c :: r) =
        (opening? 0 (c :: r)).map fun m => ((m.name, m.region), m.length) := rfl
    cases hc : closing? s (c :: r) with
    | some m =>
      have ho : opening? 0 (c :: r) = none := by
        cases ho : opening? 0 (c :: r) with
        | none => rfl
        | some m' =>
          obtain ⟨hw, -, -, r', hr⟩ := exists_of_opening? ho
          rw [hr, closing?_openingText hw] at hc
          cases hc
      simp only [List.filterMap_cons, asOpening]
      rw [filterMap_asOpening_scan r (s + 1) (covered - 1) (some c)]
      cases covered with
      | zero => rw [Pattern.occurrencesFrom, hpattern, ho]; rfl
      | succ rest => rw [Pattern.occurrencesFrom]; rfl
    | none =>
      cases covered with
      | succ rest =>
        rw [Pattern.occurrencesFrom]
        exact filterMap_asOpening_scan r (s + 1) rest (some c)
      | zero =>
        simp only
        rw [Pattern.occurrencesFrom, hpattern, opening?_start s 0]
        cases opening? 0 (c :: r) with
        | none => exact filterMap_asOpening_scan r (s + 1) 0 (some c)
        | some m =>
          simp only [Option.map_some, List.filterMap_cons, asOpening, List.map_cons]
          rw [filterMap_asOpening_scan r (s + 1) (m.length - 1) (some c)]
          rfl

/-- No closing marker begins inside of another. -/
theorem closing?_drop_eq_none {c : Char} {r : Text} {s : Nat} {m : Closing}
    (h : closing? s (c :: r) = some m) : ∀ i < m.length - 1, closing? 0 (r.drop i) = none := by
  intro i hi
  obtain ⟨hw, -, hl, next, hr⟩ := exists_of_closing? h
  rw [closingText_eq, List.cons_append, List.cons.injEq] at hr
  obtain ⟨-, rfl⟩ := hr
  rw [hl, closingText_eq, List.length_cons, Nat.add_sub_cancel] at hi
  rw [List.drop_append_of_le_length hi.le]
  refine closing?_eq_none (silent_closing_tail hw next _ (List.drop_suffix _ _) ?_) 0
  exact List.ne_nil_of_length_pos (by rw [List.length_drop]; exact Nat.sub_pos_of_lt hi)

/-- The search for closing markers does not see the opening ones. What it skips
behind a closing marker holds none. -/
theorem filterMap_asClosing_scan : ∀ (t : Text) (s covered skipped : Nat) (before : Option Char),
    (∀ i < skipped, closing? 0 (t.drop i) = none) →
    (scan s covered t).filterMap asClosing =
      (Closing.pattern.occurrencesFrom s skipped before t).map Closing.ofOccurrence
  | [], _, _, _, _, _ => by simp [scan, Pattern.occurrencesFrom]
  | c :: r, s, covered, skipped, before, hs => by
    rw [scan_cons]
    have hpattern : Closing.pattern before (c :: r) =
        (closing? 0 (c :: r)).map fun m => (m.name, m.length) := rfl
    have hnext : ∀ rest, skipped = rest + 1 → ∀ i < rest, closing? 0 (r.drop i) = none :=
      fun rest he i hi => hs (i + 1) (by omega)
    cases hc : closing? 0 (c :: r) with
    | some m =>
      have hskip : skipped = 0 := by
        by_contra h0
        have := hs 0 (by omega)
        rw [List.drop_zero, hc] at this
        cases this
      subst hskip
      rw [closing?_start s 0, hc, Pattern.occurrencesFrom, hpattern, hc]
      simp only [Option.map_some, List.filterMap_cons, asClosing, List.map_cons]
      rw [filterMap_asClosing_scan r (s + 1) (covered - 1) (m.length - 1) (some c)
        (closing?_drop_eq_none hc)]
      rfl
    | none =>
      rw [closing?_start s 0, hc]
      have hmore : ∀ covered', (scan (s + 1) covered' r).filterMap asClosing =
          (Closing.pattern.occurrencesFrom s skipped before (c :: r)).map Closing.ofOccurrence := by
        intro covered'
        cases skipped with
        | zero =>
          rw [Pattern.occurrencesFrom, hpattern, hc]
          exact filterMap_asClosing_scan r (s + 1) covered' 0 (some c) (by simp)
        | succ rest =>
          rw [Pattern.occurrencesFrom]
          exact filterMap_asClosing_scan r (s + 1) covered' rest (some c) (hnext rest rfl)
      simp only [Option.map_none]
      cases covered with
      | succ rest => exact hmore rest
      | zero =>
        simp only
        cases opening? s (c :: r) with
        | none => exact hmore 0
        | some m => exact hmore (m.length - 1)

/-- Markers are found from left to right, at most one at each character. -/
theorem scan_ordered : ∀ (t : Text) (s covered : Nat),
    (∀ m ∈ scan s covered t, s ≤ m.start) ∧
      (scan s covered t).Pairwise fun m m' => m.start < m'.start
  | [], _, _ => by simp [scan]
  | c :: r, s, covered => by
    have hstep : ∀ covered', (∀ m ∈ scan (s + 1) covered' r, s ≤ m.start) ∧
        (scan (s + 1) covered' r).Pairwise fun m m' => m.start < m'.start := by
      intro covered'
      obtain ⟨hle, hp⟩ := scan_ordered r (s + 1) covered'
      exact ⟨fun m hm => (Nat.le_succ s).trans (hle m hm), hp⟩
    have hcons : ∀ (m : Marker) (covered' : Nat), m.start = s →
        (∀ m' ∈ m :: scan (s + 1) covered' r, s ≤ m'.start) ∧
          (m :: scan (s + 1) covered' r).Pairwise fun m m' => m.start < m'.start := by
      intro m covered' hm
      obtain ⟨hle, hp⟩ := scan_ordered r (s + 1) covered'
      refine ⟨List.forall_mem_cons.mpr ⟨hm.ge, (hstep covered').1⟩, List.pairwise_cons.mpr ⟨?_, hp⟩⟩
      intro m' hm'
      rw [hm]
      exact hle m' hm'
    rw [scan_cons]
    cases hc : closing? s (c :: r) with
    | some m => exact hcons _ _ (exists_of_closing? hc).2.1
    | none =>
      cases covered with
      | succ rest => exact hstep rest
      | zero =>
        simp only
        cases ho : opening? s (c :: r) with
        | none => exact hstep 0
        | some m => exact hcons _ _ (exists_of_opening? ho).2.1

end Marker

/-- All opening and all closing markers of a text, in the order of their first
characters. -/
structure MarkersOf (t : Text) (ms : List Marker) : Prop where
  ordered : ms.Pairwise fun m m' => m.start < m'.start
  openings : ms.filterMap asOpening = openingsOf t
  closings : ms.filterMap asClosing = closingsOf t

theorem markersOf_markers (t : Text) : MarkersOf t (markers t) where
  ordered := (scan_ordered t 0 0).2
  openings := filterMap_asOpening_scan t 0 0 none
  closings := filterMap_asClosing_scan t 0 0 0 none (by simp)

/-! ### Balanced words -/

/-- Every opening marker is closed by one of its name, and what lies between is
balanced. -/
inductive Balanced : List Marker → Prop
  | nil : Balanced []
  | tag {o : Opening} {c : Closing} {inside more : List Marker} (same : o.name = c.name)
      (inner : Balanced inside) (rest : Balanced more) :
      Balanced (.opening o :: (inside ++ .closing c :: more))

theorem Balanced.append {a b : List Marker} (ha : Balanced a) (hb : Balanced b) :
    Balanced (a ++ b) := by
  induction ha with
  | nil => exact hb
  | tag same inner _ _ ih =>
    rw [List.cons_append, List.append_assoc, List.cons_append]
    exact .tag same inner ih

theorem Balanced.single {o : Opening} {c : Closing} {inside : List Marker} (same : o.name = c.name)
    (inner : Balanced inside) : Balanced (.opening o :: (inside ++ [.closing c])) :=
  .tag same inner .nil

/-- As many markers of a balanced word open as close. -/
theorem Balanced.countP_eq {ms : List Marker} (h : Balanced ms) :
    ms.countP isOpening = ms.countP (!·.isOpening) := by
  induction h with
  | nil => rfl
  | @tag o c inside more _ _ _ ih1 ih2 =>
    have ho : (opening o).isOpening = true := rfl
    have hc : (closing c).isOpening = false := rfl
    simp only [List.countP_cons, List.countP_append, ho, hc, Bool.not_true, Bool.not_false,
      Bool.false_eq_true, ↓reduceIte]
    omega

/-- In a front part of a balanced word no more markers close than open. -/
theorem Balanced.countP_le {ms : List Marker} (h : Balanced ms) : ∀ front back : List Marker,
    ms = front ++ back → front.countP (!·.isOpening) ≤ front.countP isOpening := by
  induction h with
  | nil =>
    intro front back hf
    rw [(List.append_eq_nil_iff.mp hf.symm).1]
    rfl
  | @tag o c inside more _ inner _ ih1 ih2 =>
    have ho : (opening o).isOpening = true := rfl
    have hc : (closing c).isOpening = false := rfl
    have he := inner.countP_eq
    intro front back hf
    cases front with
    | nil => rfl
    | cons m front =>
      rw [List.cons_append, List.cons.injEq] at hf
      obtain ⟨rfl, hf⟩ := hf
      simp only [List.countP_cons, ho, Bool.not_true, Bool.false_eq_true, ↓reduceIte]
      rcases List.append_eq_append_iff.mp hf with ⟨x, rfl, hx⟩ | ⟨x, rfl, -⟩
      · rcases List.cons_eq_append_iff.mp hx with ⟨rfl, -⟩ | ⟨y, rfl, hy⟩
        · rw [List.append_nil]
          omega
        · have := ih2 y back hy
          simp only [List.countP_append, List.countP_cons, hc, Bool.not_false, Bool.false_eq_true,
            ↓reduceIte]
          omega
      · have := ih1 front x rfl
        omega

/-! ### Brackets that match -/

/-- The closing marker closes the opening one: what lies between them is balanced. -/
def Matching (ms : List Marker) (o : Opening) (c : Closing) : Prop :=
  ∃ before inside after, ms = before ++ .opening o :: (inside ++ .closing c :: after) ∧
    Balanced inside

/-- A balanced word does not go on over a closing marker behind a balanced word. -/
theorem Balanced.not_append_closing {a b : List Marker} {c : Closing} (ha : Balanced a) :
    ¬ Balanced (a ++ .closing c :: b) := by
  intro h
  have hc : (closing c).isOpening = false := rfl
  have hle := h.countP_le (a ++ [.closing c]) b (by simp)
  have he := ha.countP_eq
  simp only [List.countP_append, List.countP_cons, List.countP_nil, hc, Bool.not_false,
    Bool.false_eq_true, ↓reduceIte] at hle
  omega

/-- An opening marker that occurs once is matched by one closing marker at most. -/
theorem Matching.unique {ms : List Marker} {o : Opening} {c c' : Closing} (hn : ms.Nodup)
    (h : Matching ms o c) (h' : Matching ms o c') : c = c' := by
  obtain ⟨before, inside, after, rfl, hi⟩ := h
  obtain ⟨before', inside', after', he, hi'⟩ := h'
  have hout : opening o ∉ before ∧ opening o ∉ inside ++ closing c :: after := by
    rw [List.nodup_append, List.nodup_cons] at hn
    exact ⟨fun hm => hn.2.2 _ hm _ (List.mem_cons_self ..) rfl, hn.2.1.1⟩
  obtain ⟨-, -, he⟩ := (List.append_cons_inj_of_notMem hout.1 hout.2).mp he
  rcases List.append_eq_append_iff.mp he with ⟨x, rfl, hx⟩ | ⟨x, rfl, hx⟩
  · rcases List.cons_eq_append_iff.mp hx with ⟨rfl, hx⟩ | ⟨x, rfl, -⟩
    · cases hx
      rfl
    · exact absurd hi' hi.not_append_closing
  · rcases List.cons_eq_append_iff.mp hx with ⟨rfl, hx⟩ | ⟨x, rfl, -⟩
    · cases hx
      rfl
    · exact absurd hi hi'.not_append_closing

/-! ### The walk over the markers -/

/-- The opening markers, last one first, that the word has not closed yet. -/
def Pending : List Marker → List Opening → Prop
  | before, [] => Balanced before
  | before, o :: os => ∃ front inside, before = front ++ .opening o :: inside ∧ Balanced inside ∧
      Pending front os

theorem Pending.append {before b : List Marker} {os : List Opening} (h : Pending before os)
    (hb : Balanced b) : Pending (before ++ b) os := by
  cases os with
  | nil => exact Balanced.append h hb
  | cons o os =>
    obtain ⟨front, inside, rfl, hi, hp⟩ := h
    exact ⟨front, inside ++ b, by simp, hi.append hb, hp⟩

theorem Pending.opening {before : List Marker} {os : List Opening} (h : Pending before os)
    (o : Opening) : Pending (before ++ [.opening o]) (o :: os) :=
  ⟨before, [], rfl, .nil, h⟩

theorem Pending.closing {before : List Marker} {o : Opening} {os : List Opening} {c : Closing}
    (h : Pending before (o :: os)) (same : o.name = c.name) :
    Pending (before ++ [.closing c]) os := by
  obtain ⟨front, inside, rfl, hi, hp⟩ := h
  have := hp.append (Balanced.single same hi)
  simpa using this

theorem Pending.countP_eq : ∀ {os : List Opening} {before : List Marker}, Pending before os →
    before.countP isOpening = before.countP (!·.isOpening) + os.length
  | [], _, h => Balanced.countP_eq h
  | o :: os, _, h => by
    obtain ⟨front, inside, rfl, hi, hp⟩ := h
    have ho : (Marker.opening o).isOpening = true := rfl
    have h1 := hi.countP_eq
    have h2 := hp.countP_eq
    simp only [List.countP_append, List.countP_cons, ho, Bool.not_true, Bool.false_eq_true,
      ↓reduceIte, List.length_cons]
    omega

/-- The first closing marker that closes nothing, or the innermost open tag of another
name. -/
def Misnested (ms : List Marker) : FormatError → Prop
  | .closingOutside name => ∃ before c after, ms = before ++ .closing c :: after ∧
      Balanced before ∧ name = c.name
  | .closingMismatch name expected => ∃ before o os c after, ms = before ++ .closing c :: after ∧
      Pending before (o :: os) ∧ name = c.name ∧ expected = o.name ∧ name ≠ expected
  | _ => False

/-- **What the walk has read.** Where it stands, its open tags are those that the word
up to there has not closed; so it ends with all of them closed, with a defect, or
with tags that are still open. -/
theorem growForest_pending (size : Nat) : ∀ (ms before : List Marker) (cursor : Nat)
    (opened : List OpenTag) (nodes : List Node), Pending before (opened.map (·.opening)) →
    match growForest size ms cursor opened nodes with
    | .ok _ => Balanced (before ++ ms)
    | .error e => Misnested (before ++ ms) e ∨ ∃ o os, Pending (before ++ ms) (o :: os)
  | [], before, cursor, [], nodes, h => by
    rw [growForest, List.append_nil]
    exact h
  | [], before, cursor, top :: opened, nodes, h => by
    rw [growForest, List.append_nil]
    exact .inr ⟨_, _, h⟩
  | .opening m :: r, before, cursor, opened, nodes, h => by
    have := growForest_pending size r (before ++ [.opening m]) m.stop
      (⟨m, addText cursor m.start nodes⟩ :: opened) [] (h.opening m)
    rw [growForest]
    simpa using this
  | .closing m :: r, before, cursor, [], nodes, h => by
    rw [growForest]
    exact .inl ⟨before, m, r, rfl, h, rfl⟩
  | .closing m :: r, before, cursor, top :: opened, nodes, h => by
    rw [growForest]
    by_cases hn : top.opening.name = m.name
    · have := growForest_pending size r (before ++ [.closing m]) m.stop opened
        (.tag top.opening m (addText cursor m.start nodes).reverse :: top.before) (h.closing hn)
      rw [if_pos hn]
      simpa using this
    · rw [if_neg hn]
      exact .inl ⟨before, top.opening, _, m, r, rfl, h, rfl, rfl, Ne.symm hn⟩

/-- The walk over a balanced word leaves the open tags as they are. -/
theorem Balanced.growForest_eq {ms : List Marker} (h : Balanced ms) (size : Nat) :
    ∀ (cursor : Nat) (opened : List OpenTag) (nodes : List Node) (more : List Marker),
    ∃ cursor' nodes', growForest size (ms ++ more) cursor opened nodes =
      growForest size more cursor' opened nodes' := by
  induction h with
  | nil => exact fun cursor opened nodes more => ⟨cursor, nodes, rfl⟩
  | @tag o c inside rest same _ _ ih1 ih2 =>
    intro cursor opened nodes more
    obtain ⟨cursor1, nodes1, h1⟩ := ih1 o.stop (⟨o, addText cursor o.start nodes⟩ :: opened) []
      (.closing c :: (rest ++ more))
    obtain ⟨cursor2, nodes2, h2⟩ := ih2 c.stop opened
      (.tag o c (addText cursor1 c.start nodes1).reverse :: addText cursor o.start nodes) more
    refine ⟨cursor2, nodes2, ?_⟩
    rw [List.cons_append, List.append_assoc, List.cons_append, growForest, h1, growForest,
      if_pos same, h2]

/-- The reason for which markers are refused: their counts differ, or else they are
misnested. -/
def Refused (ms : List Marker) (e : FormatError) : Prop :=
  if ms.countP isOpening = ms.countP (!·.isOpening) then Misnested ms e
  else e = .markerCounts (ms.countP isOpening) (ms.countP (!·.isOpening))

theorem balanced_of_parseForest {t : Text} {nodes : List Node} (h : parseForest t = .ok nodes) :
    Balanced (markers t) := by
  have hwalk := growForest_pending t.length (markers t) [] 0 [] [] Balanced.nil
  unfold parseForest at h
  simp only at h
  split_ifs at h
  rw [h] at hwalk
  exact hwalk

/-- A walk over as many closing as opening markers does not end with an open tag. -/
theorem refused_of_parseForest {t : Text} {e : FormatError} (h : parseForest t = .error e) :
    Refused (markers t) e := by
  have hwalk := growForest_pending t.length (markers t) [] 0 [] [] Balanced.nil
  unfold parseForest at h
  simp only at h
  unfold Refused
  split_ifs at h with hcount
  · rw [if_neg hcount]
    exact (Except.error.inj h).symm
  · rw [if_pos (not_not.mp hcount)]
    rw [h] at hwalk
    rcases hwalk with hmis | ⟨o, os, hp⟩
    · exact hmis
    · have := hp.countP_eq
      rw [List.nil_append, List.length_cons] at this
      omega

theorem exists_parseForest_of_balanced {t : Text} (h : Balanced (markers t)) :
    ∃ nodes, parseForest t = .ok nodes := by
  obtain ⟨cursor, nodes, hw⟩ := h.growForest_eq t.length 0 [] [] []
  rw [List.append_nil] at hw
  refine ⟨(addText cursor t.length nodes).reverse, ?_⟩
  unfold parseForest
  simp only
  rw [if_neg (not_not.mpr h.countP_eq), hw, growForest]

/-! ### The brackets of a forest -/

/-- Induction over the nodes of a forest, from left to right and from the outside to
the inside. -/
@[elab_as_elim]
theorem Node.forest_induction {motive : List Node → Prop} (nil : motive [])
    (text : ∀ span r, motive r → motive (.text span :: r))
    (tag : ∀ o c children r, motive children → motive r → motive (.tag o c children :: r)) :
    ∀ nodes, motive nodes
  | [] => nil
  | .text span :: r => text span r (forest_induction nil text tag r)
  | .tag o c children :: r =>
    tag o c children r (forest_induction nil text tag children) (forest_induction nil text tag r)

namespace Node

/-- Some nodes and all below them, a parent before its children. -/
def all (nodes : List Node) : List Node :=
  (preorderAll 0 nodes).map Prod.snd

theorem map_snd_preorderAll_tag (depth : Nat) (o : Opening) (c : Closing)
    (children r : List Node) : (preorderAll depth (.tag o c children :: r)).map Prod.snd =
      .tag o c children :: ((preorderAll (depth + 1) children).map Prod.snd ++
        (preorderAll depth r).map Prod.snd) := by
  rw [preorderAll, preorder, List.cons_append, List.map_cons, List.map_append]

theorem map_snd_preorderAll (nodes : List Node) : ∀ depth : Nat,
    (preorderAll depth nodes).map Prod.snd = all nodes := by
  induction nodes using forest_induction with
  | nil => exact fun _ => rfl
  | text span r ih => exact fun depth => congrArg (List.cons (Node.text span)) (ih depth)
  | tag o c children r ih1 ih2 =>
    intro depth
    rw [all, map_snd_preorderAll_tag, map_snd_preorderAll_tag, ih1, ih1, ih2, ih2]

theorem all_text (span : Span) (r : List Node) :
    all (.text span :: r) = .text span :: all r := rfl

theorem all_tag (o : Opening) (c : Closing) (children r : List Node) :
    all (.tag o c children :: r) = .tag o c children :: (all children ++ all r) := by
  rw [all, map_snd_preorderAll_tag, map_snd_preorderAll]
  rfl

/-- The two markers of a node that is a tag. -/
def brackets? : Node → Option (Opening × Closing)
  | .text _ => none
  | .tag o c _ => some (o, c)

/-- The markers of all tags of a forest, a parent before its children. -/
def brackets (nodes : List Node) : List (Opening × Closing) :=
  (all nodes).filterMap brackets?

theorem brackets_tag (o : Opening) (c : Closing) (children r : List Node) :
    brackets (.tag o c children :: r) = (o, c) :: (brackets children ++ brackets r) := by
  rw [brackets, all_tag, List.filterMap_cons, List.filterMap_append]
  rfl

/-- A parent comes before its children, as its opening marker does. -/
theorem map_fst_brackets (nodes : List Node) :
    (brackets nodes).map Prod.fst = (markersAll nodes).filterMap asOpening := by
  induction nodes using forest_induction with
  | nil => rfl
  | text span r ih => exact ih
  | tag o c children r ih1 ih2 =>
    simp [brackets_tag, markersAll, Node.markers, List.filterMap_cons, asOpening, ih1, ih2]

/-- Every closing marker belongs to one tag. -/
theorem perm_map_snd_brackets (nodes : List Node) :
    ((brackets nodes).map Prod.snd).Perm ((markersAll nodes).filterMap asClosing) := by
  induction nodes using forest_induction with
  | nil => exact .nil
  | text span r ih => exact ih
  | tag o c children r ih1 ih2 =>
    have hmarkers : (markersAll (.tag o c children :: r)).filterMap asClosing =
        (markersAll children).filterMap asClosing ++ c :: (markersAll r).filterMap asClosing := by
      simp [markersAll, Node.markers, List.filterMap_cons, asClosing]
    rw [hmarkers, brackets_tag, List.map_cons, List.map_append]
    exact ((ih1.append ih2).cons c).trans List.perm_middle.symm

theorem balanced_markersAll {nodes : List Node} :
    (∀ p ∈ brackets nodes, p.1.name = p.2.name) → Balanced (markersAll nodes) := by
  induction nodes using forest_induction with
  | nil => exact fun _ => .nil
  | text span r ih => exact ih
  | tag o c children r ih1 ih2 =>
    intro hn
    rw [brackets_tag, List.forall_mem_cons, List.forall_mem_append] at hn
    simp only [markersAll, Node.markers, List.cons_append, List.append_assoc, List.nil_append]
    exact .tag hn.1 (ih1 hn.2.1) (ih2 hn.2.2)

/-- The two markers of a tag match. -/
theorem matching_of_mem_brackets {nodes : List Node} :
    (∀ p ∈ brackets nodes, p.1.name = p.2.name) →
    ∀ p ∈ brackets nodes, Matching (markersAll nodes) p.1 p.2 := by
  induction nodes using forest_induction with
  | nil => exact fun _ p hp => absurd hp List.not_mem_nil
  | text span r ih => exact ih
  | tag o c children r ih1 ih2 =>
    intro hn p hp
    rw [brackets_tag, List.forall_mem_cons, List.forall_mem_append] at hn
    rw [brackets_tag, List.mem_cons, List.mem_append] at hp
    simp only [markersAll, Node.markers, List.cons_append, List.append_assoc, List.nil_append]
    rcases hp with rfl | hp | hp
    · exact ⟨[], markersAll children, markersAll r, rfl, balanced_markersAll hn.2.1⟩
    · obtain ⟨before, inside, after, he, hi⟩ := ih1 hn.2.1 p hp
      exact ⟨.opening o :: before, inside, after ++ .closing c :: markersAll r, by simp [he], hi⟩
    · obtain ⟨before, inside, after, he, hi⟩ := ih2 hn.2.2 p hp
      exact ⟨.opening o :: (markersAll children ++ .closing c :: before), inside, after,
        by simp [he], hi⟩

end Node

theorem Tiles.name_eq {a b : Nat} {t rest : Text} {nodes : List Node} (h : Tiles a t nodes b rest) :
    ∀ p ∈ Node.brackets nodes, p.1.name = p.2.name := by
  induction h with
  | nil => exact fun p hp => absurd hp List.not_mem_nil
  | text _ _ _ _ ih => exact ih
  | tag _ _ _ _ ih1 ih2 =>
    rw [Node.brackets_tag, List.forall_mem_cons, List.forall_mem_append]
    exact ⟨rfl, ih1, ih2⟩
  | bare _ _ ih =>
    rw [Node.brackets_tag, List.forall_mem_cons, List.forall_mem_append]
    exact ⟨rfl, fun p hp => absurd hp List.not_mem_nil, ih⟩

/-- The tags of a forest, a parent before its children, are the opening markers in
order; the closing marker of each is the only one that matches, and every closing
marker belongs to one tag and to no other. -/
structure Paired (ms : List Marker) (nodes : List Node) : Prop where
  openings : (Node.brackets nodes).map Prod.fst = ms.filterMap asOpening
  matching : ∀ p ∈ Node.brackets nodes, ∀ c, Matching ms p.1 c ↔ c = p.2
  closings : ((Node.brackets nodes).map Prod.snd).Perm (ms.filterMap asClosing)
  once : ((Node.brackets nodes).map Prod.snd).Nodup

theorem nodup_markers (t : Text) : (markers t).Nodup :=
  (markersOf_markers t).ordered.imp fun h e => by simp [e] at h

theorem paired_of_tiles {t : Text} {nodes : List Node} (h : Tiles 0 t nodes t.length []) :
    Paired (markers t) nodes := by
  have hm : markers t = Node.markersAll nodes := by
    rw [markers, h.scan_eq, scan, List.append_nil]
  have hnodup := nodup_markers t
  rw [hm] at hnodup ⊢
  have hperm := Node.perm_map_snd_brackets nodes
  have hmatch := Node.matching_of_mem_brackets h.name_eq
  refine ⟨Node.map_fst_brackets nodes, fun p hp c => ⟨fun hc => ?_, ?_⟩, hperm, ?_⟩
  · exact hc.unique hnodup (hmatch p hp)
  · rintro rfl
    exact hmatch p hp
  · refine hperm.nodup_iff.mpr (hnodup.filterMap ?_)
    intro m m' c hc hc'
    cases m with
    | opening => cases hc
    | closing =>
      cases m' with
      | opening => cases hc'
      | closing => cases hc; cases hc'; rfl

/-- **A text is read as a forest exactly when its markers are balanced**, and is
refused with the first defect otherwise. The forest pairs the markers as the
brackets that they are. -/
theorem parseForest_balanced (t : Text) :
    MarkersOf t (markers t) ∧
      ((∃ nodes, parseForest t = .ok nodes) ↔ Balanced (markers t)) ∧
        match parseForest t with
        | .ok nodes => Paired (markers t) nodes
        | .error e => Refused (markers t) e := by
  refine ⟨markersOf_markers t, ⟨?_, exists_parseForest_of_balanced⟩, ?_⟩
  · rintro ⟨nodes, hn⟩
    exact balanced_of_parseForest hn
  · cases h : parseForest t with
    | ok nodes => exact paired_of_tiles (parseForest_eq_ok_iff.mp h)
    | error e => exact refused_of_parseForest h

end Handout
