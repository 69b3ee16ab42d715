/-
# A forest is a tiling of its text

The nodes of a forest lie side by side in the text and leave no gap. `Tiles a t
nodes b rest` says so from the text's side: `t`, which begins at index `a`, is
spelled by `nodes` up to `rest`, which begins at index `b`. A run of text in it is
not empty, has no other run beside it, and no marker begins in it; a tag is its
opening marker, a tiling by its children, and the closing marker of the same
name, or an opening marker that ends with its own closing one.

Reading a text gives a forest exactly when the forest tiles it
(`parseForest_eq_ok_iff`). From left to right the walk over the markers is
followed with the text it has not read yet: the search for markers goes on
there as if it began there, so a step of the walk takes a run of text and one
marker, or an opening marker together with the closing one that it swallows. The
nodes finished so far are what completes every tiling of the unread rest
(`Grown`), and the open tags are such a completion for each level (`Stacked`).

Key definitions: `Tiles`, `Node.markersAll`, `Grown`, `Stacked`.
Key theorems: `Tiles.scan_eq`, `Tiles.growForest_eq`, `tiles_of_growForest`,
`parseForest_eq_ok_iff`.
-/
import Handout.Markup.Tree
import Handout.Proofs.Scanning

namespace Handout

open Marker

/-- The text `t` from index `a` on is spelled by `nodes` up to `rest`, which
begins at index `b`. -/
inductive Tiles : Nat → Text → List Node → Nat → Text → Prop
  | nil (a : Nat) (t : Text) : Tiles a t [] a t
  | text {a b : Nat} {t next rest : Text} {nodes : List Node} (ne_nil : t ≠ [])
      (silent : Silent t next) (apart : ∀ span, nodes.head? ≠ some (.text span))
      (more : Tiles (a + t.length) next nodes b rest) :
      Tiles a (t ++ next) (.text ⟨a, t.length⟩ :: nodes) b rest
  | tag {a b c : Nat} {w g inner next rest : Text} {children nodes : List Node}
      (isOpening : IsOpening w g) (free : ¬ Swallows g)
      (inside : Tiles (a + (openingText w g).length) inner children c (closingText w ++ next))
      (more : Tiles (c + (closingText w).length) next nodes b rest) :
      Tiles a (openingText w g ++ inner)
        (.tag ⟨a, (openingText w g).length, w, g⟩ ⟨c, (closingText w).length, w⟩ children :: nodes)
        b rest
  | bare {a b : Nat} {w g next rest : Text} {nodes : List Node}
      (isOpening : IsOpening w (g ++ ['/', '/', '<', '/'] ++ w))
      (more : Tiles (a + (openingText w (g ++ ['/', '/', '<', '/'] ++ w)).length) next nodes b
        rest) :
      Tiles a (openingText w (g ++ ['/', '/', '<', '/'] ++ w) ++ next)
        (.tag ⟨a, (openingText w (g ++ ['/', '/', '<', '/'] ++ w)).length, w,
            g ++ ['/', '/', '<', '/'] ++ w⟩
          ⟨a + (3 + w.length + g.length), (closingText w).length, w⟩ [] :: nodes)
        b rest

/-! ### A tiling is read as it is -/

mutual
/-- The markers of a node in the order of their first characters. -/
def Node.markers : Node → List Marker
  | .text _ => []
  | .tag o c children => .opening o :: (Node.markersAll children ++ [.closing c])
/-- The markers of some nodes. -/
def Node.markersAll : List Node → List Marker
  | [] => []
  | n :: r => Node.markers n ++ Node.markersAll r
end

/-- The search finds the markers of the nodes, then those of the rest. -/
theorem Tiles.scan_eq {a b : Nat} {t rest : Text} {nodes : List Node}
    (h : Tiles a t nodes b rest) : scan a 0 t = Node.markersAll nodes ++ scan b 0 rest := by
  induction h with
  | nil => rfl
  | text _ silent _ _ ih => rw [scan_silent silent, ih]; rfl
  | tag ho hf hin _ ih1 ih2 =>
    rw [scan_opening ho hf, ih1, scan_closing ho.isName, ih2]
    simp [Node.markersAll, Node.markers]
  | bare ho _ ih =>
    rw [scan_opening_swallow ho ho.isName, ih]
    simp [Node.markersAll, Node.markers]

theorem addText_self (cursor : Nat) (nodes : List Node) : addText cursor cursor nodes = nodes := by
  simp [addText]

theorem addText_length {t : Text} (h : t ≠ []) (a : Nat) (nodes : List Node) :
    addText a (a + t.length) nodes = .text ⟨a, t.length⟩ :: nodes := by
  have := List.length_pos_iff.mpr h
  rw [addText, if_pos (by omega), Nat.add_sub_cancel_left]

/-- The walk over the markers of a tiling builds its nodes. A run of text at the
end is still to be added. -/
theorem Tiles.growForest_eq {a b : Nat} {t rest : Text} {nodes : List Node}
    (h : Tiles a t nodes b rest) : ∀ (size cursor : Nat) (opened : List OpenTag) (acc : List Node)
    (more : List Marker), (∀ span, nodes.head? = some (.text span) → cursor = a) →
    ∃ cursor' acc', growForest size (Node.markersAll nodes ++ more) cursor opened acc =
      growForest size more cursor' opened acc' ∧
        addText cursor' b acc' = nodes.reverse ++ addText cursor a acc := by
  induction h with
  | nil => intro size cursor opened acc more _; exact ⟨cursor, acc, rfl, rfl⟩
  | text hne _ apart _ ih =>
    rename_i a b t next rest nodes _
    intro size cursor opened acc more hc
    obtain ⟨cursor', acc', h1, h2⟩ := ih size cursor opened acc more
      fun span hs => absurd hs (apart span)
    refine ⟨cursor', acc', h1, ?_⟩
    rw [h2, hc _ rfl, addText_length hne, addText_self]
    simp
  | tag ho hf _ _ ih1 ih2 =>
    rename_i a b c w g inner next rest children nodes _ _
    intro size cursor opened acc more _
    set o : Opening := ⟨a, (openingText w g).length, w, g⟩ with hodef
    set m : Closing := ⟨c, (closingText w).length, w⟩ with hmdef
    have hstop : o.stop = a + (openingText w g).length := rfl
    have hstop' : m.stop = c + (closingText w).length := rfl
    obtain ⟨cur1, acc1, h1, h2⟩ := ih1 size o.stop (⟨o, addText cursor a acc⟩ :: opened) []
      (.closing m :: (Node.markersAll nodes ++ more)) fun _ _ => hstop
    obtain ⟨cur2, acc2, h3, h4⟩ := ih2 size m.stop opened
      (.tag o m (addText cur1 c acc1).reverse :: addText cursor a acc) more fun _ _ => rfl
    refine ⟨cur2, acc2, ?_, ?_⟩
    · rw [Node.markersAll, Node.markers]
      simp only [List.cons_append, List.append_assoc, List.nil_append]
      rw [growForest, h1, growForest, if_pos rfl]
      exact h3
    · rw [h4, h2, hstop, hstop', addText_self, addText_self]
      simp
  | bare ho _ ih =>
    rename_i a b w g next rest nodes _
    intro size cursor opened acc more _
    set o : Opening := ⟨a, (openingText w (g ++ ['/', '/', '<', '/'] ++ w)).length, w,
      g ++ ['/', '/', '<', '/'] ++ w⟩ with hodef
    set m : Closing := ⟨a + (3 + w.length + g.length), (closingText w).length, w⟩ with hmdef
    have hlen : m.stop = o.stop := by
      simp only [Closing.stop, Opening.stop, hodef, hmdef, length_openingText, length_closingText,
        List.length_append, List.length_cons, List.length_nil]
      omega
    have hnone : addText o.stop m.start [] = [] := by
      rw [addText, if_neg]
      simp only [Opening.stop, hodef, hmdef, length_openingText, List.length_append,
        List.length_cons, List.length_nil]
      omega
    obtain ⟨cur2, acc2, h3, h4⟩ := ih size o.stop opened
      (.tag o m [] :: addText cursor a acc) more fun _ _ => rfl
    refine ⟨cur2, acc2, ?_, ?_⟩
    · rw [Node.markersAll, Node.markers, Node.markersAll]
      simp only [List.cons_append, List.nil_append]
      rw [growForest, growForest, if_pos rfl, hnone, hlen]
      exact h3
    · rw [h4, Opening.stop, addText_self]
      simp

mutual
theorem countP_markers : ∀ n : Node,
    n.markers.countP Marker.isOpening = n.markers.countP (!·.isOpening)
  | .text _ => rfl
  | .tag o c children => by
    have ih := countP_markersAll children
    have ho : (opening o).isOpening = true := rfl
    have hc : (closing c).isOpening = false := rfl
    simp [Node.markers, List.countP_append, ho, hc, ih]
/-- As many markers open as close. -/
theorem countP_markersAll : ∀ nodes : List Node,
    (Node.markersAll nodes).countP Marker.isOpening =
      (Node.markersAll nodes).countP (!·.isOpening)
  | [] => rfl
  | n :: r => by
    rw [Node.markersAll, List.countP_append, List.countP_append, countP_markers n,
      countP_markersAll r]
end

theorem parseForest_of_tiles {t : Text} {nodes : List Node} (h : Tiles 0 t nodes t.length []) :
    parseForest t = .ok nodes := by
  have hm : markers t = Node.markersAll nodes := by
    rw [markers, h.scan_eq, scan, List.append_nil]
  obtain ⟨cursor, acc, h1, h2⟩ := h.growForest_eq t.length 0 [] [] [] fun _ _ => rfl
  unfold parseForest
  simp only [hm, countP_markersAll nodes, ne_eq, not_true_eq_false, ↓reduceIte]
  rw [List.append_nil] at h1
  rw [h1, growForest, h2, addText_self]
  simp

/-! ### What is read is a tiling -/

/-- The nodes, last one first, complete every tiling of `rest` from index `c` to
a tiling of `t` from index `a`. -/
def Grown (a : Nat) (t : Text) (nodes : List Node) (c : Nat) (rest : Text) : Prop :=
  ∀ (more : List Node) (b : Nat) (next : Text),
    ((∃ span, nodes.head? = some (.text span)) → ∀ span, more.head? ≠ some (.text span)) →
    Tiles c rest more b next → Tiles a t (nodes.reverse ++ more) b next

theorem Grown.nil (a : Nat) (t : Text) : Grown a t [] a t := fun _ _ _ _ h => h

theorem Grown.tiles {a c : Nat} {t rest : Text} {nodes : List Node} (h : Grown a t nodes c rest) :
    Tiles a t nodes.reverse c rest := by
  have := h [] c rest (by simp) (.nil c rest)
  rwa [List.append_nil] at this

/-- A silent run before the unread rest joins the nodes. -/
theorem Grown.addText {a c : Nat} {t u rest : Text} {nodes : List Node}
    (h : Grown a t nodes c (u ++ rest)) (hs : Silent u rest)
    (hn : ∀ span, nodes.head? ≠ some (.text span)) :
    Grown a t (addText c (c + u.length) nodes) (c + u.length) rest := by
  by_cases hu : u = []
  · subst hu
    rw [List.length_nil, Nat.add_zero, addText_self]
    exact h
  · rw [addText_length hu]
    intro more b next hadj ht
    have := h (.text ⟨c, u.length⟩ :: more) b next
      (fun ⟨span, hsp⟩ => absurd hsp (hn span)) (.text hu hs (hadj ⟨_, rfl⟩) ht)
    simpa using this

theorem Grown.tag {a c s : Nat} {t w g inner next : Text} {before children : List Node}
    (h : Grown a t before s (openingText w g ++ inner)) (ho : IsOpening w g) (hf : ¬ Swallows g)
    (hin : Tiles (s + (openingText w g).length) inner children c (closingText w ++ next)) :
    Grown a t (.tag ⟨s, (openingText w g).length, w, g⟩ ⟨c, (closingText w).length, w⟩ children ::
      before) (c + (closingText w).length) next := by
  intro more b rest _ ht
  have := h (.tag ⟨s, (openingText w g).length, w, g⟩ ⟨c, (closingText w).length, w⟩ children ::
    more) b rest (by simp) (.tag ho hf hin ht)
  simpa using this

theorem Grown.bare {a s : Nat} {t w g next : Text} {before : List Node}
    (h : Grown a t before s (openingText w (g ++ ['/', '/', '<', '/'] ++ w) ++ next))
    (ho : IsOpening w (g ++ ['/', '/', '<', '/'] ++ w)) :
    Grown a t (.tag ⟨s, (openingText w (g ++ ['/', '/', '<', '/'] ++ w)).length, w,
        g ++ ['/', '/', '<', '/'] ++ w⟩
      ⟨s + (3 + w.length + g.length), (closingText w).length, w⟩ [] :: before)
      (s + (openingText w (g ++ ['/', '/', '<', '/'] ++ w)).length) next := by
  intro more b rest _ ht
  have := h (.tag ⟨s, (openingText w (g ++ ['/', '/', '<', '/'] ++ w)).length, w,
      g ++ ['/', '/', '<', '/'] ++ w⟩
    ⟨s + (3 + w.length + g.length), (closingText w).length, w⟩ [] :: more) b rest (by simp)
    (.bare ho ht)
  simpa using this

/-- The open tags of a walk through `source`: the innermost one has the text `t`
from index `a` on behind it, and the nodes before it complete the tilings of
the level around it. -/
def Stacked (source : Text) : List OpenTag → Nat → Text → Prop
  | [], a, t => a = 0 ∧ t = source
  | top :: opened, a, t => ∃ s w g a' t', top.opening = ⟨s, (openingText w g).length, w, g⟩ ∧
      IsOpening w g ∧ ¬ Swallows g ∧ a = s + (openingText w g).length ∧
      Grown a' t' top.before s (openingText w g ++ t) ∧ Stacked source opened a' t'

/-- A walk that succeeds from a state with finished nodes and open tags has read
a tiling. The induction is on the unread text. -/
theorem tiles_of_growForest (source : Text) : ∀ (n : Nat) (u : Text), u.length < n →
    ∀ (a c : Nat) (t : Text) (opened : List OpenTag) (nodes result : List Node),
    Stacked source opened a t → Grown a t nodes c u →
    (∀ span, nodes.head? ≠ some (.text span)) →
    growForest (c + u.length) (scan c 0 u) c opened nodes = .ok result →
    Tiles 0 source result (c + u.length) [] := by
  intro n
  induction n with
  | zero => intro u h; omega
  | succ n ih =>
    intro u hu a c t opened nodes result hst hg hn hr
    obtain ⟨x, y, rfl, hx, hy⟩ := exists_silent u
    have hg1 := hg.addText hx hn
    rw [scan_silent hx, List.length_append, ← Nat.add_assoc] at hr
    rw [List.length_append] at hu
    rw [List.length_append, ← Nat.add_assoc]
    set s := c + x.length with hs
    rcases hy with rfl | hy
    · cases opened with
      | nil =>
        obtain ⟨rfl, rfl⟩ := hst
        rw [scan, growForest, Except.ok.injEq, List.length_nil, Nat.add_zero] at hr
        rw [← hr, List.length_nil, Nat.add_zero]
        exact hg1.tiles
      | cons top opened =>
        rw [scan, growForest] at hr
        cases hr
    · rcases marksAt_iff.mp hy with ⟨w, g, r, ho, rfl⟩ | ⟨w, r, hw, rfl⟩
      · have hpos : 0 < (openingText w g).length := by rw [length_openingText]; omega
        rw [List.length_append, ← Nat.add_assoc] at hr ⊢
        rw [List.length_append] at hu
        by_cases hsw : Swallows g
        · obtain ⟨b, v, hv, rfl⟩ := hsw
          rw [scan_opening_swallow ho hv, growForest] at hr
          by_cases hvw : w = v
          · subst hvw
            have hnone : addText (s + (openingText w (b ++ ['/', '/', '<', '/'] ++ w)).length)
                (s + (3 + w.length + b.length)) [] = [] := by
              rw [addText, if_neg]
              simp only [length_openingText, List.length_append, List.length_cons, List.length_nil]
              omega
            have hlen : s + (3 + w.length + b.length) + (closingText w).length =
                s + (openingText w (b ++ ['/', '/', '<', '/'] ++ w)).length := by
              simp only [length_openingText, length_closingText, List.length_append,
                List.length_cons, List.length_nil]
              omega
            rw [growForest, if_pos rfl] at hr
            simp only [Opening.stop, Closing.stop] at hr
            rw [hnone, hlen] at hr
            exact ih r (by omega) a _ t opened _ result hst (hg1.bare ho) (by simp) hr
          · rw [growForest, if_neg hvw] at hr
            cases hr
        · rw [scan_opening ho hsw, growForest] at hr
          refine ih r (by omega) _ _ r _ [] result ?_ (Grown.nil _ r) (by simp) hr
          exact ⟨s, w, g, a, t, rfl, ho, hsw, rfl, hg1, hst⟩
      · have hpos : 0 < (closingText w).length := by rw [length_closingText]; omega
        rw [List.length_append, ← Nat.add_assoc] at hr ⊢
        rw [List.length_append] at hu
        rw [scan_closing hw] at hr
        cases opened with
        | nil =>
          rw [growForest] at hr
          cases hr
        | cons top opened =>
          obtain ⟨s', w', g', a', t', htop, ho, hsw, rfl, hgt, hst'⟩ := hst
          rw [growForest, htop] at hr
          simp only at hr
          by_cases hww : w' = w
          · subst hww
            rw [if_pos rfl] at hr
            refine ih r (by omega) a' _ t' opened _ result hst' (hgt.tag ho hsw hg1.tiles)
              (by simp) ?_
            simpa only [Closing.stop] using hr
          · rw [if_neg hww] at hr
            cases hr

/-- **A text is read as the forest that tiles it**, and is refused if there is
none. -/
theorem parseForest_eq_ok_iff {t : Text} {nodes : List Node} :
    parseForest t = .ok nodes ↔ Tiles 0 t nodes t.length [] := by
  refine ⟨fun h => ?_, parseForest_of_tiles⟩
  unfold parseForest at h
  simp only at h
  split_ifs at h
  have := tiles_of_growForest t (t.length + 1) t (by omega) 0 0 t [] [] nodes ⟨rfl, rfl⟩
    (Grown.nil 0 t) (by simp) (by rw [Nat.zero_add]; exact h)
  rwa [Nat.zero_add] at this

end Handout
