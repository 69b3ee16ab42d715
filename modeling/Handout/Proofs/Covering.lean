/-
# A forest covers its text

In document order a forest is a sequence of parts: for a tag its opening marker, what
it holds, and its closing marker (`Node.partsAll`). The parts begin one after
another and end where the next begins, but for an opening marker that swallows its
closing one: both then end at the same `>` (`Follows`). So every character of the text
belongs to one run of text and no marker, or to markers and no run, and the parts
spell the text, where a swallowed marker adds nothing (`Covers`,
`parseForest_covers`).

All of it is read off the tiling. A part lies between the two ends of the tiling it
belongs to (`Tiles.bounds`), so the parts of two tilings side by side do not meet.

Key definitions: `Part`, `Node.partsAll`, `Follows`, `Node.spellAll`, `Covers`.
Key theorems: `Tiles.bounds`, `Tiles.follows`, `Tiles.filter_covers`,
`Tiles.spellAll_append`, `parseForest_covers`.
-/
import Handout.Proofs.Nesting
import Handout.Proofs.Reading
import Mathlib.Data.List.Chain

namespace Handout

open Marker

/-- A run of text or a marker, as it stands in a text. -/
inductive Part where
  | run (span : Span)
  | marker (m : Marker)
deriving Repr, DecidableEq

namespace Part

/-- The index of the first character. -/
def start : Part → Nat
  | run span => span.start
  | marker m => m.start

/-- The index after the last character. -/
def stop : Part → Nat
  | run span => span.stop
  | marker m => m.stop

/-- Does the character at an index belong to the part? -/
def covers (i : Nat) (p : Part) : Bool :=
  p.start ≤ i && i < p.stop

end Part

namespace Node

mutual
/-- The parts of a node in document order. -/
def parts : Node → List Part
  | .text span => [.run span]
  | .tag o c children =>
    .marker (.opening o) :: (partsAll children ++ [.marker (.closing c)])
/-- The parts of some nodes in document order. -/
def partsAll : List Node → List Part
  | [] => []
  | n :: r => parts n ++ partsAll r
end

mutual
/-- What a node spells. A closing marker that ends with the opening one is part of
it and adds nothing. -/
def spell (source : Text) : Node → Text
  | .text span => span.text source
  | .tag o c children => source.slice o.start o.length ++ (spellAll source children ++
      if c.stop = o.stop then [] else source.slice c.start c.length)
/-- What some nodes spell. -/
def spellAll (source : Text) : List Node → Text
  | [] => []
  | n :: r => spell source n ++ spellAll source r
end

/-- Is the node a run of text? -/
def isText : Node → Bool
  | .text _ => true
  | .tag _ _ _ => false

theorem partsAll_text (span : Span) (r : List Node) :
    partsAll (.text span :: r) = .run span :: partsAll r := rfl

theorem partsAll_tag (o : Opening) (c : Closing) (children r : List Node) :
    partsAll (.tag o c children :: r) = .marker (.opening o) ::
      (partsAll children ++ .marker (.closing c) :: partsAll r) := by
  simp [partsAll, parts]

theorem spellAll_text (source : Text) (span : Span) (r : List Node) :
    spellAll source (.text span :: r) = span.text source ++ spellAll source r := rfl

theorem spellAll_tag (source : Text) (o : Opening) (c : Closing) (children r : List Node) :
    spellAll source (.tag o c children :: r) = source.slice o.start o.length ++
      (spellAll source children ++
        ((if c.stop = o.stop then [] else source.slice c.start c.length) ++
          spellAll source r)) := by
  simp [spellAll, spell]

end Node

/-! ### Parts one after another -/

theorem length_openingText_pos (w g : Text) : 0 < (openingText w g).length := by
  rw [length_openingText]
  omega

theorem length_closingText_pos (w : Text) : 0 < (closingText w).length := by
  rw [length_closingText]
  omega

/-- A closing marker at the end of an opening one begins behind it and ends with it. -/
theorem stop_swallowed (a : Nat) (w g : Text) :
    (⟨a + (3 + w.length + g.length), (closingText w).length, w⟩ : Closing).stop =
      (⟨a, (openingText w (g ++ ['/', '/', '<', '/'] ++ w)).length, w,
        g ++ ['/', '/', '<', '/'] ++ w⟩ : Opening).stop := by
  simp only [Closing.stop, Opening.stop, length_openingText, length_closingText,
    List.length_append, List.length_cons, List.length_nil]
  omega

theorem Tiles.le {a b : Nat} {t rest : Text} {nodes : List Node} (h : Tiles a t nodes b rest) :
    a ≤ b := by
  obtain ⟨x, -, rfl⟩ := h.split
  exact Nat.le_add_right a x.length

/-- The parts of a tiling are not empty and lie between its ends. -/
theorem Tiles.bounds {a b : Nat} {t rest : Text} {nodes : List Node} (h : Tiles a t nodes b rest) :
    ∀ p ∈ Node.partsAll nodes, a ≤ p.start ∧ p.start < p.stop ∧ p.stop ≤ b := by
  induction h with
  | nil => exact fun p hp => absurd hp List.not_mem_nil
  | @text a b t next rest nodes ne_nil _ _ more ih =>
    have hpos := List.length_pos_iff.mpr ne_nil
    have hle := more.le
    rw [Node.partsAll_text, List.forall_mem_cons]
    refine ⟨⟨Nat.le_refl a, ?_, hle⟩, fun p hp => ?_⟩
    · exact Nat.lt_add_of_pos_right hpos
    · obtain ⟨h1, h2, h3⟩ := ih p hp
      exact ⟨by omega, h2, h3⟩
  | @tag a b c w g inner next rest children nodes _ _ inside more ih1 ih2 =>
    have h1 := inside.le
    have h2 := more.le
    have ho := length_openingText_pos w g
    have hc := length_closingText_pos w
    rw [Node.partsAll_tag, List.forall_mem_cons, List.forall_mem_append, List.forall_mem_cons]
    refine ⟨⟨Nat.le_refl a, Nat.lt_add_of_pos_right ho, ?_⟩, fun p hp => ?_,
      ⟨?_, Nat.lt_add_of_pos_right hc, h2⟩, fun p hp => ?_⟩
    · show a + (openingText w g).length ≤ b
      omega
    · obtain ⟨h3, h4, h5⟩ := ih1 p hp
      exact ⟨by omega, h4, by omega⟩
    · show a ≤ c
      omega
    · obtain ⟨h3, h4, h5⟩ := ih2 p hp
      exact ⟨by omega, h4, h5⟩
  | @bare a b w g next rest nodes _ more ih =>
    have hle := more.le
    have ho := length_openingText_pos w (g ++ ['/', '/', '<', '/'] ++ w)
    have hc := length_closingText_pos w
    rw [Node.partsAll_tag, List.forall_mem_cons, List.forall_mem_append, List.forall_mem_cons]
    refine ⟨⟨Nat.le_refl a, Nat.lt_add_of_pos_right ho, hle⟩,
      fun p hp => absurd hp List.not_mem_nil, ⟨Nat.le_add_right _ _, Nat.lt_add_of_pos_right hc, ?_⟩,
      fun p hp => ?_⟩
    · have hstop := stop_swallowed a w g
      show Closing.stop _ ≤ b
      rw [hstop]
      exact hle
    · obtain ⟨h3, h4, h5⟩ := ih p hp
      exact ⟨by omega, h4, h5⟩

/-- An opening marker and the closing one of its tag, if both end with the same
character. -/
def Swallowed (nodes : List Node) (p q : Part) : Prop :=
  ∃ o c, p = .marker (.opening o) ∧ q = .marker (.closing c) ∧ (o, c) ∈ Node.brackets nodes ∧
    o.stop = c.stop

/-- The second part begins after the first and, unless the first swallows it, behind
its end. -/
def Follows (nodes : List Node) (p q : Part) : Prop :=
  p.start < q.start ∧ (p.stop ≤ q.start ∨ Swallowed nodes p q)

theorem Follows.mono {nodes nodes' : List Node} {p q : Part} (h : Follows nodes p q)
    (hs : Node.brackets nodes ⊆ Node.brackets nodes') : Follows nodes' p q := by
  refine ⟨h.1, h.2.imp id ?_⟩
  rintro ⟨o, c, hp, hq, hm, he⟩
  exact ⟨o, c, hp, hq, hs hm, he⟩

theorem follows_of_le {nodes : List Node} {p q : Part} (hp : p.start < p.stop)
    (h : p.stop ≤ q.start) : Follows nodes p q :=
  ⟨hp.trans_le h, .inl h⟩

/-- The parts of a tiling stand one after another. -/
theorem Tiles.follows {a b : Nat} {t rest : Text} {nodes : List Node} (h : Tiles a t nodes b rest) :
    (Node.partsAll nodes).Pairwise (Follows nodes) := by
  induction h with
  | nil => exact .nil
  | @text a b t next rest nodes ne_nil _ _ more ih =>
    have hpos := List.length_pos_iff.mpr ne_nil
    rw [Node.partsAll_text, List.pairwise_cons]
    refine ⟨fun p hp => follows_of_le (Nat.lt_add_of_pos_right hpos) (more.bounds p hp).1, ?_⟩
    exact ih.imp fun hf => hf.mono fun _ hm => hm
  | @tag a b c w g inner next rest children nodes _ _ inside more ih1 ih2 =>
    have ho := length_openingText_pos w g
    have hc := length_closingText_pos w
    have hle := inside.le
    have hbehind : ∀ q ∈ Node.partsAll nodes, c + (closingText w).length ≤ q.start :=
      fun q hq => (more.bounds q hq).1
    have hinside := inside.bounds
    rw [Node.partsAll_tag, List.pairwise_cons, List.pairwise_append, List.pairwise_cons,
      List.forall_mem_append, List.forall_mem_cons]
    simp only [List.forall_mem_cons]
    refine ⟨⟨fun q hq => ?_, ?_, fun q hq => ?_⟩, ?_, ⟨fun q hq => ?_, ?_⟩,
      fun p hp => ⟨?_, fun q hq => ?_⟩⟩
    · exact follows_of_le (Nat.lt_add_of_pos_right ho) (hinside q hq).1
    · exact follows_of_le (Nat.lt_add_of_pos_right ho) hle
    · refine follows_of_le (Nat.lt_add_of_pos_right ho) ?_
      show a + (openingText w g).length ≤ q.start
      have := hbehind q hq
      omega
    · refine ih1.imp fun hf => hf.mono fun x hm => ?_
      rw [Node.brackets_tag]
      exact List.mem_cons_of_mem _ (List.mem_append_left _ hm)
    · exact follows_of_le (Nat.lt_add_of_pos_right hc) (hbehind q hq)
    · refine ih2.imp fun hf => hf.mono fun x hm => ?_
      rw [Node.brackets_tag]
      exact List.mem_cons_of_mem _ (List.mem_append_right _ hm)
    · exact follows_of_le (hinside p hp).2.1 (hinside p hp).2.2
    · have := hbehind q hq
      have := (hinside p hp).2.2
      exact follows_of_le (hinside p hp).2.1 (by omega)
  | @bare a b w g next rest nodes _ more ih =>
    set o : Opening := ⟨a, (openingText w (g ++ ['/', '/', '<', '/'] ++ w)).length, w,
      g ++ ['/', '/', '<', '/'] ++ w⟩ with hodef
    set m : Closing := ⟨a + (3 + w.length + g.length), (closingText w).length, w⟩ with hmdef
    have hstop : m.stop = o.stop := stop_swallowed a w g
    have ho : o.start < o.stop := Nat.lt_add_of_pos_right (length_openingText_pos _ _)
    have hc : m.start < m.stop := Nat.lt_add_of_pos_right (length_closingText_pos w)
    have hbehind : ∀ q ∈ Node.partsAll nodes, o.stop ≤ q.start := fun q hq => (more.bounds q hq).1
    rw [Node.partsAll_tag]
    simp only [Node.partsAll, List.nil_append, List.pairwise_cons, List.forall_mem_cons]
    refine ⟨⟨⟨?_, .inr ⟨o, m, rfl, rfl, ?_, hstop.symm⟩⟩, fun q hq => ?_⟩, fun q hq => ?_, ?_⟩
    · show a < a + (3 + w.length + g.length)
      omega
    · rw [Node.brackets_tag]
      exact List.mem_cons_self ..
    · exact follows_of_le ho (hbehind q hq)
    · exact follows_of_le hc (hstop.trans_le (hbehind q hq))
    · refine ih.imp fun hf => hf.mono fun x hm => ?_
      rw [Node.brackets_tag]
      exact List.mem_cons_of_mem _ (List.mem_append_right _ hm)

/-! ### Which parts a character belongs to -/

theorem covers_eq_false {i : Nat} {p : Part} (h : i < p.start ∨ p.stop ≤ i) :
    p.covers i = false := by
  rw [Part.covers, Bool.and_eq_false_iff, decide_eq_false_iff_not, decide_eq_false_iff_not]
  omega

theorem covers_eq_true {i : Nat} {p : Part} (h1 : p.start ≤ i) (h2 : i < p.stop) :
    p.covers i = true := by
  rw [Part.covers, Bool.and_eq_true, decide_eq_true_eq, decide_eq_true_eq]
  exact ⟨h1, h2⟩

/-- No part of a tiling reaches beyond its ends. -/
theorem Tiles.filter_covers_eq_nil {a b : Nat} {t rest : Text} {nodes : List Node}
    (h : Tiles a t nodes b rest) {i : Nat} (hi : i < a ∨ b ≤ i) :
    (Node.partsAll nodes).filter (Part.covers i) = [] := by
  rw [List.filter_eq_nil_iff]
  intro p hp
  obtain ⟨h1, -, h3⟩ := h.bounds p hp
  rw [covers_eq_false (by omega)]
  decide

/-- The parts are one run of text alone, or markers. -/
def RunOrMarkers (parts : List Part) : Prop :=
  (∃ span, parts = [.run span]) ∨ ∃ m ms, parts = (m :: ms).map .marker

/-- A character between the ends of a tiling belongs to one run alone, or to
markers. -/
theorem Tiles.filter_covers {a b : Nat} {t rest : Text} {nodes : List Node}
    (h : Tiles a t nodes b rest) {i : Nat} : a ≤ i → i < b →
    RunOrMarkers ((Node.partsAll nodes).filter (Part.covers i)) := by
  induction h with
  | nil =>
    intro h1 h2
    omega
  | @text a b t next rest nodes _ _ _ more ih =>
    intro h1 h2
    rw [Node.partsAll_text, List.filter_cons]
    by_cases hi : i < a + t.length
    · rw [covers_eq_true h1 hi, more.filter_covers_eq_nil (.inl hi)]
      exact .inl ⟨_, rfl⟩
    · rw [covers_eq_false (.inr (Nat.le_of_not_lt hi))]
      exact ih (by omega) h2
  | @tag a b c w g inner next rest children nodes _ _ inside more ih1 ih2 =>
    intro h1 h2
    have hle := inside.le
    have hc := length_closingText_pos w
    rw [Node.partsAll_tag, List.filter_cons, List.filter_append, List.filter_cons]
    by_cases hi1 : i < a + (openingText w g).length
    · -- in the opening marker
      rw [covers_eq_true h1 hi1, inside.filter_covers_eq_nil (.inl hi1),
        covers_eq_false (.inl (show i < c by omega)), more.filter_covers_eq_nil (.inl (by omega))]
      exact .inr ⟨_, [], rfl⟩
    · rw [covers_eq_false (.inr (Nat.le_of_not_lt hi1))]
      by_cases hi2 : i < c
      · -- between the markers
        rw [covers_eq_false (.inl hi2), more.filter_covers_eq_nil (.inl (by omega))]
        simpa using ih1 (by omega) hi2
      · rw [inside.filter_covers_eq_nil (.inr (by omega))]
        by_cases hi3 : i < c + (closingText w).length
        · -- in the closing marker
          rw [covers_eq_true (show c ≤ i by omega) hi3, more.filter_covers_eq_nil (.inl hi3)]
          exact .inr ⟨_, [], rfl⟩
        · rw [covers_eq_false (.inr (Nat.le_of_not_lt hi3))]
          exact ih2 (by omega) h2
  | @bare a b w g next rest nodes _ more ih =>
    intro h1 h2
    have hstop := stop_swallowed a w g
    rw [Node.partsAll_tag, List.filter_cons, List.filter_append, List.filter_cons]
    by_cases hi : i < a + (openingText w (g ++ ['/', '/', '<', '/'] ++ w)).length
    · rw [covers_eq_true h1 hi, more.filter_covers_eq_nil (.inl hi), if_pos rfl]
      split_ifs
      · exact .inr ⟨_, [_], rfl⟩
      · exact .inr ⟨_, [], rfl⟩
    · have hge := Nat.le_of_not_lt hi
      rw [covers_eq_false (.inr hge), covers_eq_false (.inr (hstop.le.trans hge))]
      exact ih hge h2

/-! ### What the parts spell -/

/-- The text of every marker of a tiling is that of an opening or a closing marker. -/
theorem Tiles.slice_brackets {source : Text} {a b : Nat} {t rest : Text} {nodes : List Node}
    (h : Tiles a t nodes b rest) : ∀ front : Text, source = front ++ t → front.length = a →
    ∀ p ∈ Node.brackets nodes,
      source.slice p.1.start p.1.length = openingText p.1.name p.1.region ∧
        source.slice p.2.start p.2.length = closingText p.2.name := by
  induction h with
  | nil => exact fun _ _ _ p hp => absurd hp List.not_mem_nil
  | @text a b t next rest nodes _ _ _ _ ih =>
    intro front hs hf
    exact ih (front ++ t) (by rw [hs, List.append_assoc]) (by rw [List.length_append, hf])
  | @tag a b c w g inner next rest children nodes _ _ inside _ ih1 ih2 =>
    intro front hs hf
    obtain ⟨x, rfl, rfl⟩ := inside.split
    have h1 : source = (front ++ openingText w g) ++ (x ++ (closingText w ++ next)) := by
      rw [hs, List.append_assoc]
    have h2 : source = (front ++ openingText w g ++ x) ++ (closingText w ++ next) := by
      rw [h1, List.append_assoc (front ++ openingText w g)]
    have l1 : (front ++ openingText w g).length = a + (openingText w g).length := by
      rw [List.length_append, hf]
    have l2 : (front ++ openingText w g ++ x).length = a + (openingText w g).length + x.length := by
      rw [List.length_append, l1]
    rw [Node.brackets_tag, List.forall_mem_cons, List.forall_mem_append]
    refine ⟨⟨?_, ?_⟩, ih1 _ h1 l1, ih2 (front ++ openingText w g ++ x ++ closingText w) ?_ ?_⟩
    · rw [hs]
      exact slice_append hf _
    · rw [h2]
      exact slice_append l2 next
    · rw [h2, ← List.append_assoc]
    · rw [List.length_append, l2]
  | @bare a b w g next rest nodes _ _ ih =>
    intro front hs hf
    have h1 : source = (front ++ ('/' :: '/' :: '<' :: (w ++ g))) ++ (closingText w ++ next) := by
      rw [hs, openingText_append, closingText_append]
      simp
    rw [Node.brackets_tag, List.forall_mem_cons, List.forall_mem_append]
    refine ⟨⟨?_, ?_⟩, fun p hp => absurd hp List.not_mem_nil,
      ih (front ++ openingText w (g ++ ['/', '/', '<', '/'] ++ w)) (by rw [hs, ← List.append_assoc])
        (by rw [List.length_append, hf])⟩
    · rw [hs]
      exact slice_append hf _
    · rw [h1]
      refine slice_append ?_ next
      simp only [List.length_append, List.length_cons, hf]
      omega

/-- A tiling spells the text up to the rest. -/
theorem Tiles.spellAll_append {source : Text} {a b : Nat} {t rest : Text} {nodes : List Node}
    (h : Tiles a t nodes b rest) : ∀ front : Text, source = front ++ t → front.length = a →
    Node.spellAll source nodes ++ rest = t := by
  induction h with
  | nil => exact fun _ _ _ => rfl
  | @text a b t next rest nodes _ _ _ _ ih =>
    intro front hs hf
    have ht : (⟨a, t.length⟩ : Span).text source = t := by
      rw [hs]
      exact slice_append hf next
    rw [Node.spellAll_text, ht, List.append_assoc, ih (front ++ t) (by rw [hs, List.append_assoc])
      (by rw [List.length_append, hf])]
  | @tag a b c w g inner next rest children nodes ho hsw inside more ih1 ih2 =>
    intro front hs hf
    have hslices := (Tiles.tag ho hsw inside more).slice_brackets front hs hf
    rw [Node.brackets_tag, List.forall_mem_cons] at hslices
    obtain ⟨⟨hopening, hclosing⟩, -⟩ := hslices
    obtain ⟨x, rfl, rfl⟩ := inside.split
    set c := a + (openingText w g).length + x.length with hc
    have hpos := length_closingText_pos w
    have hapart : (⟨c, (closingText w).length, w⟩ : Closing).stop ≠
        (⟨a, (openingText w g).length, w, g⟩ : Opening).stop := by
      simp only [Closing.stop, Opening.stop, hc]
      omega
    have h1 := ih1 (front ++ openingText w g) (by rw [hs, List.append_assoc])
      (by rw [List.length_append, hf])
    have h2 := ih2 (front ++ openingText w g ++ x ++ closingText w) (by rw [hs]; simp)
      (by simp only [List.length_append, hf, hc])
    rw [Node.spellAll_tag, hopening, if_neg hapart, hclosing, List.append_assoc, List.append_assoc,
      List.append_assoc, h2, h1]
  | @bare a b w g next rest nodes ho more ih =>
    intro front hs hf
    have hslices := (Tiles.bare ho more).slice_brackets front hs hf
    rw [Node.brackets_tag, List.forall_mem_cons] at hslices
    obtain ⟨⟨hopening, -⟩, -⟩ := hslices
    have h1 := ih (front ++ openingText w (g ++ ['/', '/', '<', '/'] ++ w))
      (by rw [hs, ← List.append_assoc]) (by rw [List.length_append, hf])
    rw [Node.spellAll_tag, hopening, if_pos (stop_swallowed a w g), List.append_assoc]
    simpa [Node.spellAll] using h1

/-! ### Neighbours -/

/-- No two neighbours are both runs of text. -/
def Apart (siblings : List Node) : Prop :=
  siblings.IsChain fun n n' => ¬ (n.isText = true ∧ n'.isText = true)

theorem Apart.cons_tag {r : List Node} (h : Apart r) (o : Opening) (c : Closing)
    (children : List Node) : Apart (.tag o c children :: r) :=
  List.isChain_cons.mpr ⟨fun _ _ hboth => Bool.false_ne_true hboth.1, h⟩

theorem Tiles.apart {a b : Nat} {t rest : Text} {nodes : List Node} (h : Tiles a t nodes b rest) :
    Apart nodes ∧ ∀ o c children, .tag o c children ∈ Node.all nodes → Apart children := by
  induction h with
  | nil => exact ⟨.nil, fun o c children hm => absurd hm List.not_mem_nil⟩
  | @text a b t next rest nodes _ _ apart _ ih =>
    refine ⟨List.isChain_cons.mpr ⟨fun n hn hboth => ?_, ih.1⟩, fun o c children hm => ?_⟩
    · cases n with
      | text span => exact apart span hn
      | tag => exact Bool.false_ne_true hboth.2
    · rw [Node.all_text, List.mem_cons] at hm
      rcases hm with hm | hm
      · cases hm
      · exact ih.2 o c children hm
  | tag _ _ _ _ ih1 ih2 =>
    refine ⟨ih2.1.cons_tag _ _ _, fun o c children hm => ?_⟩
    rw [Node.all_tag, List.mem_cons, List.mem_append] at hm
    rcases hm with hm | hm | hm
    · cases hm
      exact ih1.1
    · exact ih1.2 o c children hm
    · exact ih2.2 o c children hm
  | bare _ _ ih =>
    refine ⟨ih.1.cons_tag _ _ _, fun o c children hm => ?_⟩
    rw [Node.all_tag, List.mem_cons, List.mem_append] at hm
    rcases hm with hm | hm | hm
    · cases hm
      exact .nil
    · exact absurd hm List.not_mem_nil
    · exact ih.2 o c children hm

/-! ### All of the text, once -/

/-- The nodes hold every character of the text, and hold it once. -/
structure Covers (t : Text) (nodes : List Node) : Prop where
  /-- In document order the parts begin one after another. -/
  ordered : (Node.partsAll nodes).Pairwise fun p q => p.start < q.start
  /-- A character belongs to one run and no marker, or to markers and no run. -/
  covered : ∀ i < t.length, RunOrMarkers ((Node.partsAll nodes).filter (Part.covers i))
  /-- No part reaches beyond the text. -/
  within : ∀ p ∈ Node.partsAll nodes, p.stop ≤ t.length
  /-- A run of text is not empty. -/
  nonempty : ∀ span, .run span ∈ Node.partsAll nodes → 0 < span.length
  /-- Neither the outermost nodes nor the children of a tag have two runs side by
  side. -/
  apart : Apart nodes ∧ ∀ o c children, .tag o c children ∈ Node.all nodes → Apart children
  /-- Every marker is written as one. -/
  marked : ∀ p ∈ Node.brackets nodes,
    t.slice p.1.start p.1.length = openingText p.1.name p.1.region ∧
      t.slice p.2.start p.2.length = closingText p.2.name
  /-- Two parts share a character only if they are the two markers of one tag and end
  with the same character. -/
  overlap : (Node.partsAll nodes).Pairwise fun p q =>
    ∀ i, p.covers i = true → q.covers i = true → Swallowed nodes p q
  /-- The parts one after another are the text. -/
  spelled : Node.spellAll t nodes = t

/-- **A forest loses no text and duplicates none.** -/
theorem parseForest_covers {t : Text} {nodes : List Node} (h : parseForest t = .ok nodes) :
    Covers t nodes := by
  have ht := parseForest_eq_ok_iff.mp h
  have hspelled : Node.spellAll t nodes ++ [] = t := ht.spellAll_append [] rfl rfl
  rw [List.append_nil] at hspelled
  refine ⟨ht.follows.imp And.left, fun i hi => ht.filter_covers (Nat.zero_le i) hi,
    fun p hp => (ht.bounds p hp).2.2, fun span hs => ?_, ht.apart, ht.slice_brackets [] rfl rfl,
    ht.follows.imp fun hf i hp hq => ?_, hspelled⟩
  · obtain ⟨-, hlt, -⟩ := ht.bounds _ hs
    exact Nat.pos_of_lt_add_right hlt
  · refine hf.2.resolve_left fun hle => ?_
    rw [Part.covers, Bool.and_eq_true, decide_eq_true_eq, decide_eq_true_eq] at hp hq
    omega

/-- An opening marker that swallows its closing one, between two texts and before a
tag that holds a text. -/
def swallowing : Text := "x//<a //</a>y//<b>z//</b>".toList

theorem parseForest_covers_swallowing : ∃ o c o' c',
    parseForest swallowing = .ok [.text ⟨0, 1⟩, .tag o c [], .text ⟨12, 1⟩,
      .tag o' c' [.text ⟨18, 1⟩]] ∧ o.stop = 12 ∧ c.stop = 12 ∧
      Covers swallowing [.text ⟨0, 1⟩, .tag o c [], .text ⟨12, 1⟩,
        .tag o' c' [.text ⟨18, 1⟩]] := by
  have h : parseForest swallowing = .ok [.text ⟨0, 1⟩,
      .tag ⟨1, 11, ['a'], " //</a".toList⟩ ⟨6, 6, ['a']⟩ [], .text ⟨12, 1⟩,
      .tag ⟨13, 5, ['b'], []⟩ ⟨19, 6, ['b']⟩ [.text ⟨18, 1⟩]] := by rfl
  exact ⟨_, _, _, _, h, rfl, rfl, parseForest_covers h⟩

end Handout
