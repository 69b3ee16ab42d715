/-
# The texts that are accepted

Which texts are read as documents can be said of their markers alone, without the forest
and without the order in which things are checked. The markers nest (`Nests`), and each
outermost tag is a snippet: it has the name of one, its last value for the task is a number,
the tags in it are named for kinds, the first tag of each kind holds no other, and one of
these first tags at most has a live line in its block (`Bracket.IsSnippet`,
`Grammatical`).

The forest of a text has its outermost tags in the order of its markers (`Node.outer`), and
a word nests in one way (`Nests.unique`), so it does not matter that the tags are found
through the forest. What a tag holds lies between the end of its opening and the start of
its closing marker (`Held`). If no tag is in it, it is one run of text, or nothing
(`Held.of_no_markers`), and the variant that is read from it is live if its block has a live
line (`variantOf_first`).

Of a snippet that was read one variant at most is live, so the kind that is found first is the
one that has it (`liveKind?_eq_some_iff`).

Key definitions: `Bracket`, `Nests`, `Node.outer`, `LiveLine`, `Bracket.IsSnippet`,
`Grammatical`, `Held`.
Key theorems: `Nests.unique`, `Attributes.get?_read`, `Tiles.held`, `variantOf_first`,
`isSnippet_iff`, `parse_accepts_iff`.
-/
import Handout.Proofs.Covering
import Handout.Proofs.Surviving

namespace Handout

open Marker

/-! ### The outermost tags of a word -/

/-- A tag as its markers: the opening one, those inside, and the closing one. -/
structure Bracket where
  opening : Opening
  inside : List Marker
  closing : Closing

/-- The markers nest, names and all, and these are their outermost tags. -/
inductive Nests : List Marker → List Bracket → Prop
  | nil : Nests [] []
  | tag {o : Opening} {c : Closing} {inside more : List Marker} {tags : List Bracket}
      (same : o.name = c.name) (inner : Balanced inside) (rest : Nests more tags) :
      Nests (.opening o :: (inside ++ .closing c :: more)) (⟨o, inside, c⟩ :: tags)

theorem Nests.balanced {ms : List Marker} {tags : List Bracket} (h : Nests ms tags) :
    Balanced ms := by
  induction h with
  | nil => exact .nil
  | tag same inner _ ih => exact .tag same inner ih

/-- **A word nests in one way.** A balanced front part does not go on over the closing
marker behind it. -/
theorem Nests.unique {ms : List Marker} {tags tags' : List Bracket} (h : Nests ms tags) :
    Nests ms tags' → tags = tags' := by
  induction h generalizing tags' with
  | nil =>
    intro h'
    cases h'
    rfl
  | @tag o c inside more tags same inner _ ih =>
    intro h'
    generalize hms : Marker.opening o :: (inside ++ .closing c :: more) = ms at h'
    cases h' with
    | nil => cases hms
    | @tag o' c' inside' more' tags' same' inner' rest' =>
      rw [List.cons.injEq, Marker.opening.injEq] at hms
      obtain ⟨rfl, hms⟩ := hms
      have hinside : inside = inside' := by
        rcases List.append_eq_append_iff.mp hms with ⟨x, rfl, hx⟩ | ⟨x, rfl, hx⟩
        · rcases List.cons_eq_append_iff.mp hx with ⟨rfl, -⟩ | ⟨x, rfl, -⟩
          · rw [List.append_nil]
          · exact absurd inner' inner.not_append_closing
        · rcases List.cons_eq_append_iff.mp hx with ⟨rfl, -⟩ | ⟨x, rfl, -⟩
          · rw [List.append_nil]
          · exact absurd inner inner'.not_append_closing
      subst hinside
      have hmore := List.append_cancel_left hms
      rw [List.cons.injEq, Marker.closing.injEq] at hmore
      obtain ⟨rfl, rfl⟩ := hmore
      rw [ih rest']

namespace Node

/-- The outermost tags of some nodes. -/
def outer : List Node → List Bracket
  | [] => []
  | .text _ :: r => outer r
  | .tag o c children :: r => ⟨o, markersAll children, c⟩ :: outer r

theorem mem_outer_iff {b : Bracket} : ∀ {nodes : List Node}, b ∈ outer nodes ↔
    ∃ o c children, .tag o c children ∈ nodes ∧ b = ⟨o, markersAll children, c⟩
  | [] => by simp [outer]
  | .text span :: r => by
    rw [outer, mem_outer_iff]
    simp
  | .tag o c children :: r => by
    rw [outer, List.mem_cons, mem_outer_iff]
    constructor
    · rintro (rfl | ⟨o', c', children', hm, rfl⟩)
      · exact ⟨o, c, children, List.mem_cons_self .., rfl⟩
      · exact ⟨o', c', children', List.mem_cons_of_mem _ hm, rfl⟩
    · rintro ⟨o', c', children', hm, rfl⟩
      rcases List.mem_cons.mp hm with he | hm
      · cases he
        exact .inl rfl
      · exact .inr ⟨o', c', children', hm, rfl⟩

/-- The markers of nodes nest, and the outermost tags are those of the nodes. -/
theorem nests_outer : ∀ {nodes : List Node}, (∀ p ∈ brackets nodes, p.1.name = p.2.name) →
    Nests (markersAll nodes) (outer nodes)
  | [], _ => .nil
  | .text _ :: r, h => by
    have ih : Nests (markersAll r) (outer r) := nests_outer h
    exact ih
  | .tag o c children :: r, h => by
    rw [brackets_tag, List.forall_mem_cons, List.forall_mem_append] at h
    have := Nests.tag h.1 (balanced_markersAll h.2.1) (nests_outer h.2.2)
    simpa [markersAll, Node.markers, outer] using this

/-- The first tag of a name, among the nodes and among their outermost tags. -/
theorem find?_outer (name : Text) : ∀ nodes : List Node,
    match findTag? name nodes with
    | none => (outer nodes).find? (fun b => b.opening.name = name) = none
    | some (o, children) => ∃ c, .tag o c children ∈ nodes ∧
        (outer nodes).find? (fun b => b.opening.name = name) = some ⟨o, markersAll children, c⟩
  | [] => rfl
  | .text span :: r => by
    have ih := find?_outer name r
    have hfind : findTag? name (.text span :: r) = findTag? name r := rfl
    rw [hfind, outer]
    match hf : findTag? name r with
    | none => rwa [hf] at ih
    | some (o, children) =>
      rw [hf] at ih
      obtain ⟨c, hm, hb⟩ := ih
      exact ⟨c, List.mem_cons_of_mem _ hm, hb⟩
  | .tag o c children :: r => by
    have ih := find?_outer name r
    by_cases hn : o.name = name
    · have hfind : findTag? name (.tag o c children :: r) = some (o, children) := by
        simp [findTag?, tags, hn]
      rw [hfind]
      exact ⟨c, List.mem_cons_self .., by simp [outer, hn]⟩
    · have hfind : findTag? name (.tag o c children :: r) = findTag? name r := by
        simp [findTag?, tags, hn]
      rw [hfind, outer, List.find?_cons_of_neg (by simpa using hn)]
      match hf : findTag? name r with
      | none => rwa [hf] at ih
      | some (o', children') =>
        rw [hf] at ih
        obtain ⟨c', hm, hb⟩ := ih
        exact ⟨c', List.mem_cons_of_mem _ hm, hb⟩

theorem map_name_tags : ∀ nodes : List Node,
    (tags nodes).map (·.1.name) = (outer nodes).map (·.opening.name)
  | [] => rfl
  | .text _ :: r => map_name_tags r
  | .tag o c children :: r => by
    rw [tags, outer, List.map_cons, List.map_cons, map_name_tags r]

end Node

/-! ### The grammar -/

/-- A line with a character that is not blank, where no comment mark comes first. -/
def LiveLine (line : Text) : Prop :=
  (∃ c ∈ line, isBlank c = false) ∧ ¬ ['/', '/'] <+: line.dropWhile isBlank

/-- The values that a region gives to a key, in their order. -/
def Attributes.given (key region : Text) : List Text :=
  ((pair.occurrences region).map (·.value)).filterMap fun p => if p.1 = key then some p.2 else none

namespace Bracket

/-- The text between the two markers of a tag. -/
def block (t : Text) (b : Bracket) : Text :=
  t.slice b.opening.stop (b.closing.start - b.opening.stop)

/-- One line of the trimmed block is live. -/
def HoldsLive (t : Text) (b : Bracket) : Prop :=
  ∃ line ∈ (b.block t).strip.lines, LiveLine line

/-- The first of some tags that is named for a kind. -/
def first? (k : Kind) (tags : List Bracket) : Option Bracket :=
  tags.find? fun b => b.opening.name = k.name

/-- The tag can stand outermost in a text. -/
structure IsSnippet (t : Text) (b : Bracket) : Prop where
  name : b.opening.name = Snippet.tagName
  /-- The last value for the task, if there is one, is a number. -/
  task : ∀ value, (Attributes.given Snippet.taskKey b.opening.region).getLast? = some value →
    ∃ n, TaskNumber.parse? value = some n
  inside : ∃ tags, Nests b.inside tags ∧
    (∀ tag ∈ tags, ∃ k : Kind, tag.opening.name = k.name) ∧
    (∀ k tag, first? k tags = some tag → tag.inside = []) ∧
    ∀ k k' tag tag', first? k tags = some tag → first? k' tags = some tag' →
      tag.HoldsLive t → tag'.HoldsLive t → k = k'

end Bracket

/-- The markers of the text nest, and each outermost tag is a snippet. -/
def Grammatical (t : Text) : Prop :=
  ∃ tags, Nests (markers t) tags ∧ ∀ tag ∈ tags, tag.IsSnippet t

/-! ### Attributes -/

namespace Attributes

theorem get?_put (key k v : Text) : ∀ attributes : Attributes,
    get? key (put k v attributes) = if k = key then some v else get? key attributes
  | [] => rfl
  | (k', v') :: r => by
    rw [put]
    by_cases hk : k' = k
    · subst hk
      rw [if_pos rfl, get?, get?]
      split_ifs <;> rfl
    · rw [if_neg hk, get?, get?, get?_put key k v r]
      by_cases hk' : k' = key
      · rw [if_pos hk', if_pos hk', if_neg fun e => hk (hk'.trans e.symm)]
      · rw [if_neg hk', if_neg hk']

/-- **The last value that a region gives to a key is its value.** The induction is on the
pairs from the last one back. -/
theorem get?_read (key region : Text) : get? key (read region) = (given key region).getLast? := by
  unfold read given ofPairs
  generalize (pair.occurrences region).map (·.value) = pairs
  induction pairs using List.reverseRecOn with
  | nil => rfl
  | append_singleton pairs p ih =>
    rw [List.foldl_append, List.filterMap_append, List.foldl_cons, List.foldl_nil, get?_put]
    by_cases hp : p.1 = key
    · simp [hp]
    · simpa [hp] using ih

end Attributes

theorem Snippet.exists_taskOf_iff {o : Opening} : (∃ task, taskOf o.attributes = .ok task) ↔
    ∀ value, (Attributes.given taskKey o.region).getLast? = some value →
      ∃ n, TaskNumber.parse? value = some n := by
  unfold taskOf
  rw [Opening.attributes, Attributes.get?_read]
  cases (Attributes.given taskKey o.region).getLast? with
  | none => simp
  | some value =>
    simp only [Option.some.injEq, forall_eq']
    cases TaskNumber.parse? value with
    | none => simp
    | some n => simp

/-! ### What a tag holds -/

/-- What a tag holds lies between its two markers and is tiled by the children, or the
closing marker begins in the opening one and there are none. -/
def Held (o : Opening) (c : Closing) (children : List Node) : Prop :=
  (children = [] ∧ c.start ≤ o.stop) ∨ ∃ inner rest, Tiles o.stop inner children c.start rest

theorem Tiles.held {a b : Nat} {t rest : Text} {nodes : List Node} (h : Tiles a t nodes b rest) :
    ∀ o c children, .tag o c children ∈ nodes → Held o c children := by
  induction h with
  | nil => exact fun o c children hm => absurd hm List.not_mem_nil
  | text _ _ _ _ ih =>
    intro o c children hm
    rcases List.mem_cons.mp hm with hm | hm
    · cases hm
    · exact ih o c children hm
  | tag _ _ inside _ _ ih =>
    intro o c children hm
    rcases List.mem_cons.mp hm with hm | hm
    · cases hm
      exact .inr ⟨_, _, inside⟩
    · exact ih o c children hm
  | @bare a b w g next rest nodes _ _ ih =>
    intro o c children hm
    rcases List.mem_cons.mp hm with hm | hm
    · cases hm
      refine .inl ⟨rfl, ?_⟩
      simp only [Opening.stop, length_openingText, List.length_append]
      omega
    · exact ih o c children hm

theorem Held.held {o o' : Opening} {c c' : Closing} {children children' : List Node}
    (h : Held o c children) (hm : .tag o' c' children' ∈ children) : Held o' c' children' := by
  rcases h with ⟨rfl, -⟩ | ⟨inner, rest, h⟩
  · exact absurd hm List.not_mem_nil
  · exact h.held o' c' children' hm

theorem Held.nests {o : Opening} {c : Closing} {children : List Node} (h : Held o c children) :
    Nests (Node.markersAll children) (Node.outer children) := by
  rcases h with ⟨rfl, -⟩ | ⟨inner, rest, h⟩
  · exact .nil
  · exact Node.nests_outer h.name_eq

theorem Tiles.eq_of_nil {a b : Nat} {t rest : Text} (h : Tiles a t [] b rest) : b = a := by
  cases h
  rfl

/-- A tag without tags in it holds the text between its markers, or nothing if this is
empty. -/
theorem Held.of_no_markers {o : Opening} {c : Closing} {children : List Node}
    (h : Held o c children) (h0 : Node.markersAll children = []) :
    (children = [] ∧ c.start ≤ o.stop) ∨ children = [.text ⟨o.stop, c.start - o.stop⟩] := by
  rcases h with h | ⟨inner, rest, h⟩
  · exact .inl h
  · match children, h, h0 with
    | [], h, _ => exact .inl ⟨rfl, h.eq_of_nil.le⟩
    | [.text span], h, _ =>
      obtain ⟨u, rfl, rfl, -⟩ := h.of_text
      obtain ⟨x, hx, hc⟩ := h.split
      obtain rfl : u = x := List.append_cancel_right hx
      rw [hc, Nat.add_sub_cancel_left]
      exact .inr rfl
    | .text span :: .text span' :: r, h, _ =>
      have hapart := (List.isChain_cons.mp h.apart.1).1 _ rfl
      exact absurd ⟨rfl, rfl⟩ hapart
    | .text span :: .tag .. :: r, _, h0 => simp [Node.markersAll, Node.markers] at h0
    | .tag .. :: r, _, h0 => simp [Node.markersAll, Node.markers] at h0

/-! ### Variants of the first tags -/

theorem isLive_iff {line : Text} : isLive line = true ↔ LiveLine line := by
  have hcontent : (content line).isEmpty = false ↔ ∃ c ∈ line, isBlank c = false := by
    rw [List.isEmpty_eq_false_iff, ne_eq, content, List.dropWhile_eq_nil_iff]
    simp
  have hmark : commentMark.isPrefixOf (content line) = true ↔
      ['/', '/'] <+: line.dropWhile isBlank := List.isPrefixOf_iff_prefix
  rw [isLive, Bool.and_eq_true, Bool.not_eq_true', Bool.not_eq_true', hcontent, LiveLine, ← hmark,
    Bool.not_eq_true]

theorem not_liveLine_nil : ¬ LiveLine [] := by
  rintro ⟨⟨c, hc, -⟩, -⟩
  exact List.not_mem_nil hc

/-- A variant is live if a line of its trimmed block is. -/
theorem live_ofBlock_iff (block : Text) :
    (Variant.ofBlock block).live = true ↔ ∃ line ∈ block.strip.lines, LiveLine line := by
  rw [Variant.live_ofBlock, Variant.ofBlock_eq]
  simp only [Variant.ofLines, List.any_eq_true, isLive_iff]
  split_ifs with h0
  · rw [h0]
    simp [Text.lines, not_liveLine_nil]
  · rfl

/-- A tag whose closing marker begins in the opening one holds no live line. -/
theorem not_holdsLive_of_le (t : Text) {b : Bracket} (h : b.closing.start ≤ b.opening.stop) :
    ¬ b.HoldsLive t := by
  have hblock : b.block t = [] := by
    simp [Bracket.block, Text.slice, Nat.sub_eq_zero_of_le h]
  have hlines : (b.block t).strip.lines = [[]] := by
    rw [hblock]
    rfl
  rintro ⟨line, hline, hlive⟩
  rw [hlines, List.mem_singleton] at hline
  exact not_liveLine_nil (hline ▸ hlive)

/-- The variant of a kind among the children of a tag: there is none without a tag of this
kind; else the first one must hold no tag, and its block tells whether it is live. -/
theorem variantOf_first {t : Text} {o : Opening} {c : Closing} {children : List Node}
    (h : Held o c children) (k : Kind) :
    match Bracket.first? k (Node.outer children) with
    | none => Snippet.variantOf t children k = .ok none
    | some b =>
      ((∃ v, Snippet.variantOf t children k = .ok v) ↔ b.inside = []) ∧
        ∀ v, Snippet.variantOf t children k = .ok v →
          (v.any (·.live) = true ↔ b.HoldsLive t) := by
  have hfind := Node.find?_outer k.name children
  unfold Bracket.first? Snippet.variantOf
  match hf : Node.findTag? k.name children with
  | none =>
    rw [hf] at hfind
    simp only at hfind
    rw [hfind]
  | some (o', inner) =>
    rw [hf] at hfind
    obtain ⟨c', hm, hb⟩ := hfind
    rw [hb]
    have hheld := h.held hm
    -- Without tags in it, the tag holds nothing or the run of text that is its block.
    have hempty : Node.markersAll inner = [] →
        (inner = [] ∧ c'.start ≤ o'.stop) ∨ inner = [.text ⟨o'.stop, c'.start - o'.stop⟩] :=
      hheld.of_no_markers
    match inner, hempty with
    | [], hempty =>
      refine ⟨by simp [Node.markersAll], fun v hv => ?_⟩
      cases hv
      rcases hempty rfl with ⟨-, hle⟩ | he
      · have hnot : ¬ Bracket.HoldsLive t ⟨o', Node.markersAll [], c'⟩ := not_holdsLive_of_le t hle
        simp only [Option.any_none, Bool.false_eq_true, false_iff]
        exact hnot
      · cases he
    | [.text span], hempty =>
      refine ⟨by simp [Node.markersAll, Node.markers], fun v hv => ?_⟩
      cases hv
      rcases hempty rfl with ⟨he, -⟩ | he
      · cases he
      · cases he
        exact live_ofBlock_iff _
    | .tag .. :: r, _ =>
      refine ⟨by simp [Node.markersAll, Node.markers], fun v hv => by cases hv⟩
    | .text _ :: .text _ :: r, hempty =>
      refine ⟨?_, fun v hv => by cases hv⟩
      constructor
      · rintro ⟨v, hv⟩
        cases hv
      · intro h0
        rcases hempty h0 with ⟨he, -⟩ | he <;> cases he
    | .text _ :: .tag .. :: r, _ =>
      refine ⟨by simp [Node.markersAll, Node.markers], fun v hv => by cases hv⟩

/-- A variant of a kind can be read exactly when the first tag of the kind holds no tag. -/
theorem exists_variantOf_iff {t : Text} {o : Opening} {c : Closing} {children : List Node}
    (h : Held o c children) (k : Kind) : (∃ v, Snippet.variantOf t children k = .ok v) ↔
      ∀ b, Bracket.first? k (Node.outer children) = some b → b.inside = [] := by
  have hspec := variantOf_first (t := t) h k
  cases hb : Bracket.first? k (Node.outer children) with
  | none =>
    rw [hb] at hspec
    exact iff_of_true ⟨none, hspec⟩ fun b he => by cases he
  | some b =>
    rw [hb] at hspec
    rw [hspec.1]
    simp

/-- The variant of a kind is live exactly when the first tag of the kind holds a live line. -/
theorem any_live_iff {t : Text} {o : Opening} {c : Closing} {children : List Node}
    (h : Held o c children) {k : Kind} {v : Option Variant}
    (hv : Snippet.variantOf t children k = .ok v) : v.any (·.live) = true ↔
      ∃ b, Bracket.first? k (Node.outer children) = some b ∧ b.HoldsLive t := by
  have hspec := variantOf_first (t := t) h k
  cases hb : Bracket.first? k (Node.outer children) with
  | none =>
    rw [hb] at hspec
    obtain rfl : v = none := Except.ok.inj (hv.symm.trans hspec)
    simp
  | some b =>
    rw [hb] at hspec
    rw [hspec.2 v hv]
    simp

/-! ### Live kinds -/

namespace Snippet

theorem mem_liveKinds_iff {s : Snippet} {k : Kind} :
    k ∈ s.liveKinds ↔ (s.variant? k).any (·.live) = true := by
  rw [liveKinds, List.mem_filter]
  exact and_iff_right k.mem_all

theorem nodup_liveKinds (s : Snippet) : s.liveKinds.Nodup :=
  List.Nodup.sublist List.filter_sublist (by decide)

/-- One kind at most is live. -/
theorem length_liveKinds_le_iff {s : Snippet} : s.liveKinds.length ≤ 1 ↔
    ∀ k k', (s.variant? k).any (·.live) = true → (s.variant? k').any (·.live) = true → k = k' := by
  simp only [← mem_liveKinds_iff]
  have hnodup := s.nodup_liveKinds
  match s.liveKinds, hnodup with
  | [], _ => simp
  | [k], _ => simp +contextual
  | k :: k' :: r, hnodup =>
    constructor
    · intro hle
      simp at hle
    · intro hall
      have hne := List.rel_of_pairwise_cons hnodup (List.mem_cons_self ..)
      exact absurd (hall k k' (by simp) (by simp)) hne

/-- Where one kind at most is live, the live kind is the one that has a live variant. -/
theorem liveKind?_eq_some_iff {s : Snippet} (h : s.liveKinds.length ≤ 1) {k : Kind} :
    s.liveKind? = some k ↔ ∃ v, s.variant? k = some v ∧ v.live = true := by
  have hany : (∃ v, s.variant? k = some v ∧ v.live = true) ↔
      (s.variant? k).any (·.live) = true := by
    cases s.variant? k with
    | none => simp
    | some v => simp
  rw [hany, ← mem_liveKinds_iff, liveKind?]
  match s.liveKinds, h with
  | [], _ => simp
  | [k'], _ => simp [eq_comm]
  | _ :: _ :: _, h => simp at h

end Snippet

/-! ### Acceptance -/

theorem unknownNames_eq_nil_iff {children : List Node} : Snippet.unknownNames children = [] ↔
    ∀ tag ∈ Node.outer children, ∃ k : Kind, tag.opening.name = k.name := by
  rw [Snippet.unknownNames, Node.map_name_tags, List.filter_eq_nil_iff, List.forall_mem_map]
  refine forall₂_congr fun tag _ => ?_
  simp only [Bool.not_eq_true', List.contains_eq_mem, decide_eq_false_iff_not, not_not,
    List.mem_map]
  constructor
  · rintro ⟨k, -, hk⟩
    exact ⟨k, hk.symm⟩
  · rintro ⟨k, hk⟩
    exact ⟨k, k.mem_all, hk.symm⟩

/-- **A tag is read as a snippet exactly when its markers are those of one.** -/
theorem isSnippet_iff {t : Text} {o : Opening} {c : Closing} {children : List Node}
    (h : Held o c children) : Bracket.IsSnippet t ⟨o, Node.markersAll children, c⟩ ↔
      ∃ p, PieceOf t (.tag o c children) p := by
  constructor
  · rintro ⟨hname, htask, tags, hnests, hkinds, hfirst, hlive⟩
    obtain rfl : tags = Node.outer children := hnests.unique h.nests
    obtain ⟨task, htask⟩ := Snippet.exists_taskOf_iff.mpr htask
    choose v hv using fun k => (exists_variantOf_iff (t := t) h k).mpr (hfirst k)
    let s : Snippet :=
      ⟨indentationBefore t o.start, task, v .student, v .solution, v .special⟩
    have hs : ∀ k, s.variant? k = v k := by
      intro k
      cases k <;> rfl
    refine ⟨.snippet s, hname, Snippet.ofTag_eq_ok_iff.mpr ⟨rfl, htask, fun k => ?_,
      unknownNames_eq_nil_iff.mpr hkinds, Snippet.length_liveKinds_le_iff.mpr fun k k' hk hk' => ?_⟩⟩
    · rw [hs]
      exact hv k
    · rw [hs] at hk hk'
      obtain ⟨b, hb, hbl⟩ := (any_live_iff h (hv k)).mp hk
      obtain ⟨b', hb', hbl'⟩ := (any_live_iff h (hv k')).mp hk'
      exact hlive k k' b b' hb hb' hbl hbl'
  · rintro ⟨p, hp⟩
    cases p with
    | text span => exact absurd hp id
    | snippet s =>
      obtain ⟨hname, hs⟩ := hp
      obtain ⟨-, htask, hv, hunknown, hlive⟩ := Snippet.ofTag_eq_ok_iff.mp hs
      refine ⟨hname, Snippet.exists_taskOf_iff.mp ⟨_, htask⟩, Node.outer children, h.nests,
        unknownNames_eq_nil_iff.mp hunknown, fun k => (exists_variantOf_iff h k).mp ⟨_, hv k⟩,
        fun k k' b b' hb hb' hbl hbl' => ?_⟩
      exact Snippet.length_liveKinds_le_iff.mp hlive k k' ((any_live_iff h (hv k)).mpr ⟨b, hb, hbl⟩)
        ((any_live_iff h (hv k')).mpr ⟨b', hb', hbl'⟩)

theorem exists_forall₂_iff {α β : Type} {R : α → β → Prop} : ∀ {l : List α},
    (∃ m, List.Forall₂ R l m) ↔ ∀ x ∈ l, ∃ y, R x y
  | [] => by simp
  | x :: l => by
    rw [List.forall_mem_cons, ← exists_forall₂_iff]
    constructor
    · rintro ⟨m, hm⟩
      obtain ⟨y, m', hy, hm', rfl⟩ := List.forall₂_cons_left_iff.mp hm
      exact ⟨⟨y, hy⟩, m', hm'⟩
    · rintro ⟨⟨y, hy⟩, m, hm⟩
      exact ⟨y :: m, .cons hy hm⟩

/-- The nodes of a text are pieces exactly when their outermost tags are snippets. -/
theorem Tiles.exists_pieces_iff {source : Text} {a b : Nat} {t rest : Text} {nodes : List Node}
    (h : Tiles a t nodes b rest) : (∃ pieces, List.Forall₂ (PieceOf source) nodes pieces) ↔
      ∀ tag ∈ Node.outer nodes, tag.IsSnippet source := by
  rw [exists_forall₂_iff]
  constructor
  · intro hall tag hm
    obtain ⟨o, c, children, hn, rfl⟩ := Node.mem_outer_iff.mp hm
    exact (isSnippet_iff (h.held o c children hn)).mpr (hall _ hn)
  · intro hall n hn
    cases n with
    | text span => exact ⟨.text span, rfl⟩
    | tag o c children =>
      exact (isSnippet_iff (h.held o c children hn)).mp
        (hall _ (Node.mem_outer_iff.mpr ⟨o, c, children, hn, rfl⟩))

theorem Tiles.markers_eq {t : Text} {nodes : List Node} (h : Tiles 0 t nodes t.length []) :
    markers t = Node.markersAll nodes := by
  rw [markers, h.scan_eq, scan, List.append_nil]

theorem exists_parse_iff (t : Text) : (∃ d, Document.parse t = .ok d) ↔ Grammatical t := by
  constructor
  · rintro ⟨d, hd⟩
    obtain ⟨-, nodes, htiles, hp⟩ := parse_eq_ok_iff.mp hd
    refine ⟨Node.outer nodes, ?_, htiles.exists_pieces_iff.mp ⟨_, hp⟩⟩
    rw [htiles.markers_eq]
    exact Node.nests_outer htiles.name_eq
  · rintro ⟨tags, hnests, hall⟩
    obtain ⟨nodes, hnodes⟩ := exists_parseForest_of_balanced hnests.balanced
    have htiles := parseForest_eq_ok_iff.mp hnodes
    rw [htiles.markers_eq] at hnests
    obtain rfl : tags = Node.outer nodes := hnests.unique (Node.nests_outer htiles.name_eq)
    obtain ⟨pieces, hp⟩ := htiles.exists_pieces_iff.mpr hall
    exact ⟨⟨t, pieces⟩, parse_eq_ok_iff.mpr ⟨rfl, nodes, htiles, hp⟩⟩

/-- A snippet of a document that was read was read from a tag. -/
theorem exists_ofTag_of_mem {t : Text} {d : Document} (h : Document.parse t = .ok d) :
    ∀ s ∈ d.snippets, ∃ o children, Snippet.ofTag t o children = .ok s := by
  obtain ⟨-, nodes, -, hp⟩ := parse_eq_ok_iff.mp h
  unfold Document.snippets
  generalize d.pieces = pieces at hp
  induction hp with
  | nil => exact fun s hs => absurd hs List.not_mem_nil
  | @cons n p nodes pieces hp _ ih =>
    cases p with
    | text span => exact ih
    | snippet s =>
      cases n with
      | text span => exact absurd hp id
      | tag o c children => exact forall_snippets_cons.mpr ⟨⟨o, children, hp.2⟩, ih⟩

/-- **Exactly the texts of the grammar are accepted**, and every other is refused with an
error of the format. In a document that was read a variant is live if one of its lines is,
and the live kind of a snippet is the one kind that has a live variant. -/
theorem parse_accepts_iff (t : Text) :
    ((∃ d, Document.parse t = .ok d) ↔ Grammatical t) ∧
      ((∃ e, Document.parse t = .error e) ↔ ¬ Grammatical t) ∧
      ∀ d, Document.parse t = .ok d → ∀ s ∈ d.snippets, ∀ k,
        (s.liveKind? = some k ↔ ∃ v, s.variant? k = some v ∧ v.live = true) ∧
          ∀ v, s.variant? k = some v → (v.live = true ↔ ∃ line ∈ v.lines, LiveLine line) := by
  refine ⟨exists_parse_iff t, ?_, fun d hd s hs k => ⟨?_, fun v hv => ?_⟩⟩
  · rw [← exists_parse_iff]
    cases Document.parse t with
    | ok d => simp
    | error e => simp
  · obtain ⟨o, children, hread⟩ := exists_ofTag_of_mem hd s hs
    exact Snippet.liveKind?_eq_some_iff (Snippet.ofTag_eq_ok_iff.mp hread).2.2.2.2
  · obtain ⟨raw, -, rfl⟩ := ((readable_of_parse hd).2.read s hs).variant k v hv
    rw [Variant.live_ofBlock, List.any_eq_true]
    simp only [isLive_iff]

/-- A snippet whose first task is none, with a solution of blanks and a second tag for
students that holds another tag. -/
def secondStudent : Text :=
  "//<snippet task=\"x\" task=\"1.2\">\n//<student>\na;\n//</student>\n".toList ++
    "//<solution> //</solution>\n//<student>//<b>//</b>//</student>\n//</snippet>\n".toList

/-- A snippet with two live variants. -/
def twoLive : Text :=
  "//<snippet>//<student>a//</student>//<solution>b//</solution>//</snippet>".toList

theorem parse_accepts_iff_secondStudent : (∃ d s v, Document.parse secondStudent = .ok d ∧
    Grammatical secondStudent ∧ s ∈ d.snippets ∧ s.liveKind? = some .student ∧
      s.variant? .student = some v ∧ ∃ line ∈ v.lines, LiveLine line) ∧
    ¬ Grammatical twoLive ∧ ∃ e, Document.parse twoLive = .error e := by
  let v : Variant := ⟨["a;".toList], true⟩
  let s : Snippet := ⟨[], some (.two 1 2), some v, some ⟨[], false⟩, none⟩
  let d : Document := ⟨secondStudent, [.snippet s, .text ⟨134, 1⟩]⟩
  have h : Document.parse secondStudent = .ok d := by decide +kernel
  have h' : Document.parse twoLive = .error (.severalLive [.student, .solution]) := by
    decide +kernel
  obtain ⟨hiff, -, hlive⟩ := parse_accepts_iff secondStudent
  obtain ⟨hkind, hlines⟩ := hlive d h s (List.mem_cons_self ..) .student
  obtain ⟨-, hrefused, -⟩ := parse_accepts_iff twoLive
  exact ⟨⟨d, s, v, h, hiff.mp ⟨d, h⟩, List.mem_cons_self .., hkind.mpr ⟨v, rfl, rfl⟩, rfl,
    (hlines v rfl).mp rfl⟩, hrefused.mp ⟨_, h'⟩, _, h'⟩

end Handout
