/-
# Hidden solutions leave no trace

What an extraction gives depends on what a text says and not on where it says it: a node
without its positions is a `Tree`, the variants of a snippet are read from the trees of
its children (`variantOf_eq`), and a variant that is not shown plays no part. So texts
whose trees differ in nothing else are extracted alike (`renderPieces_eq_of_veiled`).

A run of text does not see what comes behind the marker after it. A tiling can
therefore be carried to another place and another continuation and keeps its trees
(`Tiles.transfer`). Around what a tag holds this gives a `Frame`: two texts between
which any nodes can be put, and the rest is read as before (`Frame.enter`). Entering a
snippet and then its solution, the frame is what stands around the block, and a text
free of `//<` can take its place (`render_hidden`).

Key definitions: `Tree`, `Node.tree`, `Veiled`, `Exchangeable`, `Fills`, `Frame`.
Key theorems: `variantOf_eq`, `renderPieces_eq_of_veiled`, `Tiles.transfer`,
`Frame.enter`, `render_hidden`.
-/
import Handout.Proofs.RoundTrip

namespace Handout

open Marker

/-! ### Nodes without their positions -/

/-- What a node says, wherever it stands. -/
inductive Tree where
  | text (t : Text)
  | tag (name region : Text) (inside : List Tree)

namespace Node

mutual
/-- A node without its positions. -/
def tree (source : Text) : Node → Tree
  | .text span => .text (span.text source)
  | .tag o _ children => .tag o.name o.region (trees source children)
/-- Some nodes without their positions. -/
def trees (source : Text) : List Node → List Tree
  | [] => []
  | n :: r => tree source n :: trees source r
end

theorem trees_append (source : Text) (l r : List Node) :
    trees source (l ++ r) = trees source l ++ trees source r := by
  induction l with
  | nil => rfl
  | cons n l ih => rw [List.cons_append, trees, trees, ih, List.cons_append]

/-- Whether nodes begin with a run of text can be told from their trees. -/
theorem head_text_of_trees {source source' : Text} : ∀ {l l' : List Node},
    trees source l = trees source' l' → (∀ span, l.head? ≠ some (.text span)) →
    ∀ span, l'.head? ≠ some (.text span)
  | _, [], _, _, span => by simp
  | _, .tag .. :: _, _, _, span => by simp
  | [], .text _ :: _, h, _, _ => by cases h
  | .text _ :: _, .text _ :: _, _, hl, _ => absurd rfl (hl _)
  | .tag .. :: _, .text _ :: _, h, _, _ => by cases h

end Node

namespace Tree

/-- What the first tag of a name holds. -/
def inside? (name : Text) : List Tree → Option (List Tree)
  | [] => none
  | .text _ :: r => inside? name r
  | .tag name' _ inside :: r => if name' = name then some inside else inside? name r

/-- The variant of a kind among what a snippet holds. -/
def variantOf (trees : List Tree) (k : Kind) : Except FormatError (Option Variant) :=
  match inside? k.name trees with
  | none => .ok none
  | some [] => .ok none
  | some [.text t] => .ok (some (Variant.ofBlock t))
  | some _ => .error (.nestedTags k)

/-- A tag of another name is passed over. -/
theorem inside?_append_tag {name name' : Text} (h : name' ≠ name) (region : Text)
    (inside r : List Tree) : ∀ l : List Tree,
    inside? name (l ++ .tag name' region inside :: r) = inside? name (l ++ r)
  | [] => by rw [List.nil_append, inside?, if_neg h, List.nil_append]
  | .text _ :: l => inside?_append_tag h region inside r l
  | .tag n _ i :: l => by
    rw [List.cons_append, List.cons_append, inside?, inside?,
      inside?_append_tag h region inside r l]

end Tree

theorem Node.map_findTag? (source name : Text) : ∀ children : List Node,
    (findTag? name children).map (fun t => trees source t.2) =
      Tree.inside? name (trees source children)
  | [] => rfl
  | .text _ :: r => map_findTag? source name r
  | .tag o c inside :: r => by
    have ih := map_findTag? source name r
    rw [trees, tree, Tree.inside?, findTag?, tags, List.find?_cons]
    by_cases h : o.name = name
    · simp [h]
    · simpa [h, findTag?] using ih

/-- The variant of a kind is read from the trees of the children. -/
theorem Snippet.variantOf_eq (source : Text) (children : List Node) (k : Kind) :
    variantOf source children k = Tree.variantOf (Node.trees source children) k := by
  unfold variantOf Tree.variantOf
  rw [← Node.map_findTag?]
  match Node.findTag? k.name children with
  | none => rfl
  | some (_, []) => rfl
  | some (_, [.text span]) => rfl
  | some (_, [.tag ..]) => rfl
  | some (_, .text _ :: _ :: _) => rfl
  | some (_, .tag .. :: _ :: _) => rfl

/-! ### What an extraction looks at -/

/-- Where a variant becomes live, the indentation plays no part. -/
theorem Variant.render_true (v : Variant) (indentation indentation' : Text) :
    v.render true indentation = v.render true indentation' := by
  unfold render
  cases v.live <;> rfl

/-- An extraction looks at the active variant alone. -/
theorem Snippet.render_congr {o : Options} (hm : o.mode.keepsMarkup = false) {s s' : Snippet}
    (ha : (activationFor o s).kind = (activationFor o s').kind)
    (hv : s.variant? (activationFor o s).kind = s'.variant? (activationFor o s).kind) :
    s.render o = s'.render o := by
  unfold render
  rw [if_neg (by simp [hm]), if_neg (by simp [hm]), ← ha, ← hv]
  cases s.variant? (activationFor o s).kind with
  | none => rfl
  | some v => exact v.render_true _ _

theorem PieceOf.render_text {o : Options} {source : Text} {span : Span} {p : Piece}
    (h : PieceOf source (.text span) p) : p.render o source = .ok (span.text source) := by
  cases p with
  | text span' => rw [show span = span' from h]; rfl
  | snippet s => exact absurd h id

/-- A tag that is a piece is a snippet, whose task is read from the region and whose
variants are read from the trees. -/
theorem PieceOf.exists_snippet {source : Text} {o : Opening} {c : Closing} {children : List Node}
    {p : Piece} (h : PieceOf source (.tag o c children) p) : ∃ s, p = .snippet s ∧
      Snippet.taskOf (Attributes.read o.region) = .ok s.task ∧
        ∀ k, Tree.variantOf (Node.trees source children) k = .ok (s.variant? k) := by
  cases p with
  | text span => exact absurd h id
  | snippet s =>
    obtain ⟨-, htask, hv, -⟩ := Snippet.ofTag_eq_ok_iff.mp h.2
    exact ⟨s, rfl, htask, fun k => Snippet.variantOf_eq source children k ▸ hv k⟩

/-- Two trees that differ at most in what another variant than the shown one holds, in
a snippet that shows the variant for students. -/
inductive Veiled (o : Options) : Tree → Tree → Prop
  | same (t : Tree) : Veiled o t t
  | other {k : Kind} (ne_student : k ≠ .student) (name region region' : Text)
      (l r inside inside' : List Tree)
      (unreached : ∀ task, Snippet.taskOf (Attributes.read region) = .ok task →
        (o.mode.wantsSolution && reached task o.cutoff) = false) :
      Veiled o (.tag name region (l ++ .tag k.name region' inside :: r))
        (.tag name region (l ++ .tag k.name region' inside' :: r))

/-- Snippets with the same task and the same variants are extracted alike. -/
theorem Snippet.render_same {o : Options} (hm : o.mode.keepsMarkup = false) {s s' : Snippet}
    (htask : s.task = s'.task) (hv : ∀ k, s.variant? k = s'.variant? k) :
    s.render o = s'.render o := by
  have hspecial : s.special = s'.special := hv .special
  have ha : activationFor o s = activationFor o s' := by
    rw [activationFor, activationFor, htask, hspecial]
  exact render_congr hm (by rw [ha]) (hv _)

/-- Snippets of a task that is not reached are extracted alike if their variants for
students are the same. -/
theorem Snippet.render_student {o : Options} (hm : o.mode.keepsMarkup = false) {s s' : Snippet}
    (htask : s.task = s'.task) (hw : (o.mode.wantsSolution && reached s.task o.cutoff) = false)
    (hv : s.student = s'.student) : s.render o = s'.render o := by
  have hs : (activationFor o s).kind = .student := by
    simp [activationFor, Activation.kind, hw]
  have hs' : (activationFor o s').kind = .student := by
    simp [activationFor, Activation.kind, ← htask, hw]
  refine render_congr hm (hs.trans hs'.symm) ?_
  rw [hs]
  exact hv

/-- Pieces with such trees are extracted alike. -/
theorem PieceOf.render_eq {o : Options} (hm : o.mode.keepsMarkup = false) {source source' : Text}
    {n n' : Node} {p p' : Piece} (hp : PieceOf source n p) (hp' : PieceOf source' n' p')
    (h : Veiled o (n.tree source) (n'.tree source')) : p.render o source = p'.render o source' := by
  generalize ht : n.tree source = t at h
  generalize ht' : n'.tree source' = t' at h
  cases h with
  | same t =>
    cases n with
    | text span =>
      cases n' with
      | tag => cases ht.trans ht'.symm
      | text span' =>
        obtain ht := Tree.text.inj (ht.trans ht'.symm)
        rw [hp.render_text, hp'.render_text, ht]
    | tag op c children =>
      cases n' with
      | text => cases ht.trans ht'.symm
      | tag op' c' children' =>
        obtain ⟨-, hregion, htrees⟩ := Tree.tag.inj (ht.trans ht'.symm)
        obtain ⟨s, rfl, htask, hv⟩ := hp.exists_snippet
        obtain ⟨s', rfl, htask', hv'⟩ := hp'.exists_snippet
        exact Snippet.render_same hm (Except.ok.inj (htask.symm.trans (hregion ▸ htask')))
          fun k => Except.ok.inj ((hv k).symm.trans (htrees ▸ hv' k))
  | @other k hk name region region' l r inside inside' unreached =>
    cases n with
    | text => cases ht
    | tag op c children =>
      cases n' with
      | text => cases ht'
      | tag op' c' children' =>
        obtain ⟨-, rfl, htrees⟩ := Tree.tag.inj ht
        obtain ⟨-, hregion, htrees'⟩ := Tree.tag.inj ht'
        obtain ⟨s, rfl, htask, hv⟩ := hp.exists_snippet
        obtain ⟨s', rfl, htask', hv'⟩ := hp'.exists_snippet
        have hne : k.name ≠ Kind.student.name := fun e => hk (Kind.name_injective e)
        have hstudent := hv .student
        have hstudent' := hv' .student
        rw [htrees, Tree.variantOf, Tree.inside?_append_tag hne] at hstudent
        rw [htrees', Tree.variantOf, Tree.inside?_append_tag hne, hstudent] at hstudent'
        exact Snippet.render_student hm (Except.ok.inj (htask.symm.trans (hregion ▸ htask')))
          (unreached _ htask) (Except.ok.inj hstudent')

/-- Documents with such trees are extracted alike. The induction is on the pieces of the
first. -/
theorem renderPieces_eq_of_veiled {o : Options} (hm : o.mode.keepsMarkup = false)
    {source source' : Text} {nodes : List Node} {pieces : List Piece}
    (h : List.Forall₂ (PieceOf source) nodes pieces) :
    ∀ {nodes' : List Node} {pieces' : List Piece}, List.Forall₂ (PieceOf source') nodes' pieces' →
    List.Forall₂ (Veiled o) (Node.trees source nodes) (Node.trees source' nodes') →
    renderPieces o source pieces = renderPieces o source' pieces' := by
  induction h with
  | nil =>
    intro nodes' pieces' h' hv
    cases h' with
    | nil => rfl
    | cons => cases hv
  | cons hp _ ih =>
    intro nodes' pieces' h' hv
    cases h' with
    | nil => cases hv
    | cons hp' hr' =>
      rw [Node.trees, Node.trees, List.forall₂_cons] at hv
      rw [renderPieces, renderPieces, hp.render_eq hm hp' hv.1, ih hr' hv.2]

/-! ### Carrying a tiling to another place -/

/-- Two continuations between which the text before them sees no difference: they are
the same or both begin with a marker. -/
def Exchangeable (next next' : Text) : Prop :=
  next' = next ∨ marksAt next = true ∧ marksAt next' = true

theorem exchangeable_opening {w g : Text} (h : IsOpening w g) (next next' : Text) :
    Exchangeable (openingText w g ++ next) (openingText w g ++ next') :=
  .inr ⟨marksAt_iff.mpr (.inl ⟨w, g, next, h, rfl⟩), marksAt_iff.mpr (.inl ⟨w, g, next', h, rfl⟩)⟩

theorem exchangeable_closing {w : Text} (h : IsName w) (next next' : Text) :
    Exchangeable (closingText w ++ next) (closingText w ++ next') :=
  .inr ⟨marksAt_closingText h next, marksAt_closingText h next'⟩

theorem Silent.exchange {t next next' : Text} (h : Silent t next) (hn : Exchangeable next next') :
    Silent t next' := by
  rcases hn with rfl | ⟨hn, hn'⟩
  · exact h
  · exact (h.plain hn).silent (breaks_of_marksAt hn')

/-- Before tilings with the same trees, too, nothing can be told apart. -/
theorem Tiles.exchangeable {source source' : Text} {a a' b b' : Nat} {t t' rest rest' : Text}
    {nodes nodes' : List Node} (h : Tiles a t nodes b rest) (h' : Tiles a' t' nodes' b' rest')
    (ht : Node.trees source nodes = Node.trees source' nodes')
    (hn : ∀ span, nodes.head? ≠ some (.text span)) (hr : Exchangeable rest rest') :
    Exchangeable t t' := by
  have hn' := Node.head_text_of_trees ht hn
  cases nodes with
  | nil =>
    obtain rfl : nodes' = [] := by
      cases nodes' with
      | nil => rfl
      | cons n r => cases ht
    cases h
    cases h'
    exact hr
  | cons n r =>
    have h0 : nodes' ≠ [] := by rintro rfl; cases ht
    exact .inr ⟨h.marksAt (List.cons_ne_nil n r) hn, h'.marksAt h0 hn'⟩

/-- **A tiling can be carried to another place and continuation.** The induction is on
the tiling; the children of a tag are followed by its closing marker in both places. -/
theorem Tiles.transfer {source source' : Text} {a b : Nat} {t rest : Text} {nodes : List Node}
    (h : Tiles a t nodes b rest) : ∀ (front front' x rest' : Text),
    source = front ++ t → front.length = a → t = x ++ rest →
    source' = front' ++ (x ++ rest') → Exchangeable rest rest' →
    ∃ nodes', Tiles front'.length (x ++ rest') nodes' (front' ++ x).length rest' ∧
      Node.trees source nodes = Node.trees source' nodes' := by
  induction h with
  | nil a t =>
    intro front front' x rest' _ _ hx _ _
    obtain rfl : x = [] := by simpa using hx
    rw [List.append_nil]
    exact ⟨[], .nil _ _, rfl⟩
  | @text a b u next rest nodes ne_nil silent apart more ih =>
    intro front front' x rest' hs hf hx hs' hrest
    obtain ⟨y, rfl, -⟩ := more.split
    obtain rfl : u ++ y = x := List.append_cancel_right (by rw [← hx, List.append_assoc])
    rw [List.append_assoc] at hs'
    obtain ⟨nodes', h1, h2⟩ := ih (front ++ u) (front' ++ u) y rest'
      (by rw [hs, List.append_assoc]) (by rw [List.length_append, hf]) rfl
      (by rw [hs', List.append_assoc]) hrest
    refine ⟨.text ⟨front'.length, u.length⟩ :: nodes', ?_, ?_⟩
    · rw [List.append_assoc, ← List.append_assoc front']
      rw [List.length_append] at h1
      exact .text ne_nil (silent.exchange (more.exchangeable h1 h2 apart hrest))
        (Node.head_text_of_trees h2 apart) h1
    · rw [Node.trees, Node.trees, h2, Node.tree, Node.tree, Span.text, Span.text, hs, hs',
        slice_append hf, slice_append rfl]
  | @tag a b c w g inner next rest children nodes ho hf inside more ih1 ih2 =>
    intro front front' x rest' hs hfr hx hs' hrest
    obtain ⟨z, rfl, hc⟩ := inside.split
    obtain ⟨y, rfl, -⟩ := more.split
    obtain rfl : openingText w g ++ z ++ closingText w ++ y = x :=
      List.append_cancel_right (by rw [← hx]; simp only [List.append_assoc])
    simp only [List.append_assoc] at hs' ⊢
    obtain ⟨children', h1, h2⟩ := ih1 (front ++ openingText w g)
      (front' ++ openingText w g) z (closingText w ++ (y ++ rest'))
      (by rw [hs, List.append_assoc]) (by rw [List.length_append, hfr]) rfl
      (by rw [hs', List.append_assoc]) (exchangeable_closing ho.isName _ _)
    obtain ⟨nodes', h3, h4⟩ := ih2 (front ++ openingText w g ++ z ++ closingText w)
      (front' ++ openingText w g ++ z ++ closingText w) y rest'
      (by rw [hs]; simp only [List.append_assoc]) (by simp only [List.length_append]; omega) rfl
      (by rw [hs']; simp only [List.append_assoc]) hrest
    rw [List.length_append] at h1
    rw [@List.length_append _ (front' ++ openingText w g ++ z)] at h3
    have htag := Tiles.tag ho hf h1 h3
    simp only [List.append_assoc] at htag
    exact ⟨_, htag, by rw [Node.trees, Node.trees, h4, Node.tree, Node.tree, h2]⟩
  | @bare a b w g next rest nodes ho more ih =>
    intro front front' x rest' hs hf hx hs' hrest
    obtain ⟨y, rfl, -⟩ := more.split
    set op := openingText w (g ++ ['/', '/', '<', '/'] ++ w) with hop
    obtain rfl : op ++ y = x := List.append_cancel_right (by rw [← hx, List.append_assoc])
    rw [List.append_assoc] at hs'
    obtain ⟨nodes', h1, h2⟩ := ih (front ++ op) (front' ++ op) y rest'
      (by rw [hs, List.append_assoc]) (by rw [List.length_append, hf]) rfl
      (by rw [hs', List.append_assoc]) hrest
    rw [List.length_append, List.append_assoc] at h1
    rw [List.append_assoc]
    exact ⟨_, .bare ho h1, by rw [Node.trees, Node.trees, h2]; rfl⟩

/-! ### What stands around a block -/

theorem Tiles.of_append : ∀ {xs ys : List Node} {a b : Nat} {t rest : Text},
    Tiles a t (xs ++ ys) b rest → ∃ c mid, Tiles a t xs c mid ∧ Tiles c mid ys b rest
  | [], _, a, _, t, _, h => ⟨a, t, .nil a t, h⟩
  | x :: xs, ys, _, _, _, _, h => by
    generalize hz : xs ++ ys = zs at h
    rw [List.cons_append, hz] at h
    cases h with
    | text ne_nil silent apart more =>
      subst hz
      obtain ⟨c, mid, h1, h2⟩ := of_append more
      refine ⟨c, mid, .text ne_nil silent (fun span hs => apart span ?_) h1, h2⟩
      rw [List.head?_append, hs, Option.some_or]
    | tag ho hf inside more =>
      subst hz
      obtain ⟨c, mid, h1, h2⟩ := of_append more
      exact ⟨c, mid, .tag ho hf inside h1, h2⟩
    | bare ho more =>
      subst hz
      obtain ⟨c, mid, h1, h2⟩ := of_append more
      exact ⟨c, mid, .bare ho h1, h2⟩

theorem Tiles.append {a b c : Nat} {t mid rest : Text} {xs ys : List Node}
    (h : Tiles a t xs c mid) (hy : ∀ span, ys.head? ≠ some (.text span)) :
    Tiles c mid ys b rest → Tiles a t (xs ++ ys) b rest := by
  induction h with
  | nil => exact id
  | @text _ _ _ _ _ nodes ne_nil silent apart _ ih =>
    intro h2
    have hhead : ∀ span, (nodes ++ ys).head? ≠ some (.text span) := by
      intro span hs
      rw [List.head?_append, Option.or_eq_some_iff] at hs
      exact hs.elim (apart span) fun hs => hy span hs.2
    exact .text ne_nil silent hhead (ih h2)
  | tag ho hf inside _ _ ih => exact fun h2 => .tag ho hf inside (ih h2)
  | bare ho _ ih => exact fun h2 => .bare ho (ih h2)

/-- The nodes tile what stands between two texts. -/
def Fills (before inner after : Text) (nodes : List Node) : Prop :=
  Tiles before.length (inner ++ after) nodes (before ++ inner).length after

theorem fills_iff_parseForest {t : Text} {nodes : List Node} :
    Fills [] t [] nodes ↔ parseForest t = .ok nodes := by
  rw [parseForest_eq_ok_iff, Fills, List.append_nil, List.nil_append, List.length_nil]

/-- Without markers, a text is filled by itself, or by nothing if it is empty. -/
theorem exists_fills_of_plain {t after : Text} (h : Plain t) (ha : marksAt after = true)
    (before : Text) : ∃ nodes, Fills before t after nodes := by
  by_cases h0 : t = []
  · subst h0
    refine ⟨[], ?_⟩
    rw [Fills, List.append_nil]
    exact .nil _ _
  · refine ⟨[.text ⟨before.length, t.length⟩], ?_⟩
    rw [Fills, List.length_append]
    exact .text h0 (h.silent (breaks_of_marksAt ha)) (by simp) (.nil _ _)

theorem Fills.transfer {before inner after : Text} {nodes : List Node}
    (h : Fills before inner after nodes) (before' : Text) {after' : Text}
    (ha : Exchangeable after after') : ∃ nodes', Fills before' inner after' nodes' ∧
      Node.trees (before ++ (inner ++ after)) nodes =
        Node.trees (before' ++ (inner ++ after')) nodes' :=
  Tiles.transfer h before before' inner after' rfl rfl rfl rfl ha

/-- A tag among other nodes that holds something parts the text in five. -/
theorem Fills.of_append_tag {before inner after : Text} {pre post children : List Node}
    {o : Opening} {c : Closing} (h : Fills before inner after (pre ++ .tag o c children :: post))
    (h0 : children ≠ []) : ∃ x z y,
      inner = x ++ (openingText o.name o.region ++ (z ++ (closingText o.name ++ y))) ∧
      IsOpening o.name o.region ∧ ¬ Swallows o.region ∧
      Fills before x
        (openingText o.name o.region ++ (z ++ (closingText o.name ++ (y ++ after)))) pre ∧
      Fills (before ++ x ++ openingText o.name o.region) z (closingText o.name ++ (y ++ after))
        children ∧
      Fills (before ++ x ++ openingText o.name o.region ++ z ++ closingText o.name) y after
        post := by
  obtain ⟨q, mid, hpre, htag⟩ := Tiles.of_append h
  obtain ⟨x, hx, rfl⟩ := hpre.split
  cases htag with
  | bare => exact absurd rfl h0
  | @tag _ _ c₀ w g inn next _ _ _ ho hf inside more =>
    obtain ⟨z, rfl, rfl⟩ := inside.split
    obtain ⟨y, rfl, hb⟩ := more.split
    rw [hx] at hpre
    rw [hb] at more
    refine ⟨x, z, y, List.append_cancel_right (hx.trans (by simp only [List.append_assoc])), ho, hf,
      ?_, ?_, ?_⟩
    · rw [Fills, List.length_append]
      exact hpre
    · simp only [Fills, List.length_append]
      exact inside
    · simp only [Fills, List.length_append]
      exact more

/-- Five such parts make nodes with a tag among them. -/
theorem Fills.append_tag {before x z y after w g : Text} {pre post children : List Node}
    (ho : IsOpening w g) (hf : ¬ Swallows g)
    (hpre : Fills before x (openingText w g ++ (z ++ (closingText w ++ (y ++ after)))) pre)
    (hin : Fills (before ++ x ++ openingText w g) z (closingText w ++ (y ++ after)) children)
    (hpost : Fills (before ++ x ++ openingText w g ++ z ++ closingText w) y after post) :
    ∃ o c, o.name = w ∧ o.region = g ∧
      Fills before (x ++ (openingText w g ++ (z ++ (closingText w ++ y)))) after
        (pre ++ .tag o c children :: post) := by
  simp only [Fills, List.length_append] at hpre hin hpost
  have hall := Tiles.append hpre (by simp) (Tiles.tag ho hf hin hpost)
  refine ⟨⟨(before ++ x).length, (openingText w g).length, w, g⟩,
    ⟨(before ++ x ++ openingText w g ++ z).length, (closingText w).length, w⟩, rfl, rfl, ?_⟩
  simpa only [Fills, List.append_assoc, List.length_append, Nat.add_assoc] using hall

/-- Between the texts `before` and `after` any nodes can be put: the whole is read then,
and `wrap` gives its trees from theirs. -/
def Frame (before after : Text) (wrap : List Tree → List Tree) : Prop :=
  ∀ {inner : Text} {children : List Node}, Fills before inner after children →
    ∃ nodes, parseForest (before ++ (inner ++ after)) = .ok nodes ∧
      Node.trees (before ++ (inner ++ after)) nodes =
        wrap (Node.trees (before ++ (inner ++ after)) children)

theorem frame_whole : Frame [] [] id := by
  intro inner children h
  rw [List.append_nil, List.nil_append]
  exact ⟨children, fills_iff_parseForest.mp h, rfl⟩

/-- Around what a tag holds there is a frame, if there is one around the tag. -/
theorem Frame.enter {before inner after : Text} {wrap : List Tree → List Tree}
    (hw : Frame before after wrap) {pre post children : List Node} {o : Opening} {c : Closing}
    (h : Fills before inner after (pre ++ .tag o c children :: post)) (h0 : children ≠ []) :
    ∃ before' inner' after', before ++ (inner ++ after) = before' ++ (inner' ++ after') ∧
      marksAt after' = true ∧ Fills before' inner' after' children ∧
      Frame before' after' fun trees => wrap (Node.trees (before ++ (inner ++ after)) pre ++
        .tag o.name o.region trees :: Node.trees (before ++ (inner ++ after)) post) := by
  obtain ⟨x, z, y, rfl, ho, hf, hpre, hin, hpost⟩ := h.of_append_tag h0
  set op := openingText o.name o.region with hop
  set cl := closingText o.name with hcl
  refine ⟨before ++ x ++ op, z, cl ++ (y ++ after), by simp only [List.append_assoc],
    marksAt_closingText ho.isName _, hin, ?_⟩
  intro z' children' hin'
  obtain ⟨pre', h1, h2⟩ := hpre.transfer before
    (exchangeable_opening ho _ (z' ++ (cl ++ (y ++ after))))
  obtain ⟨post', h3, h4⟩ := hpost.transfer (before ++ x ++ op ++ z' ++ cl) (.inl rfl)
  obtain ⟨o', c', hname, hregion, hall⟩ := Fills.append_tag ho hf h1 hin' h3
  obtain ⟨nodes, hn, ht⟩ := hw hall
  simp only [← hop, ← hcl, List.append_assoc] at hn ht h2 h4 ⊢
  refine ⟨nodes, hn, ?_⟩
  rw [ht, Node.trees_append, Node.trees, Node.tree, hname, hregion, h2, h4]

/-! ### Hidden solutions -/

/-- The block in a tag of a snippet that was read has a frame around it. -/
theorem exists_frame {before block after : Text} {nodes children : List Node} {o o' : Opening}
    {c c' : Closing} (h : parseForest (before ++ (block ++ after)) = .ok nodes)
    (htag : .tag o c children ∈ nodes)
    (hblock : .tag o' c' [.text ⟨before.length, block.length⟩] ∈ children) :
    ∃ pre post pre' post' inside,
      Node.trees (before ++ (block ++ after)) nodes = pre ++ .tag o.name o.region
        (pre' ++ .tag o'.name o'.region inside :: post') :: post ∧
      marksAt after = true ∧
      Frame before after fun trees => pre ++ .tag o.name o.region
        (pre' ++ .tag o'.name o'.region trees :: post') :: post := by
  obtain ⟨pre, post, rfl⟩ := List.append_of_mem htag
  obtain ⟨pre', post', rfl⟩ := List.append_of_mem hblock
  have hall := fills_iff_parseForest.mpr h
  obtain ⟨b₁, i₁, a₁, h₁, -, hfills₁, hframe₁⟩ := frame_whole.enter hall (by simp)
  obtain ⟨b₂, i₂, a₂, h₂, hmark, hfills₂, hframe₂⟩ := hframe₁.enter hfills₁ (by simp)
  -- The run of text in the frame is the block, so the frame is what stands around it.
  obtain ⟨u, hu, hspan, -⟩ := Tiles.of_text hfills₂
  obtain rfl : i₂ = u := List.append_cancel_right hu
  obtain ⟨hb, hi⟩ := Span.mk.inj hspan
  have hsource : before ++ (block ++ after) = b₂ ++ (i₂ ++ a₂) := by
    rw [← h₂, ← h₁, List.append_nil, List.nil_append]
  obtain ⟨rfl, hrest⟩ := List.append_inj hsource hb
  obtain ⟨rfl, rfl⟩ := List.append_inj hrest hi
  rw [h₁.symm] at h₂ hframe₂
  simp only [List.append_nil, List.nil_append, id] at hframe₂
  refine ⟨_, _, _, _, Node.trees (before ++ (block ++ after))
    [.text ⟨before.length, block.length⟩], ?_, hmark, hframe₂⟩
  rw [Node.trees_append, Node.trees, Node.tree, Node.trees_append, Node.trees, Node.tree]

/-- Where a hidden block is replaced, the trees stay the same but for that block. -/
theorem forall₂_veiled {before block block' after : Text} {nodes nodes' children : List Node}
    {op op' : Opening} {c c' : Closing} {k : Kind}
    (h : parseForest (before ++ block ++ after) = .ok nodes)
    (h' : parseForest (before ++ block' ++ after) = .ok nodes') (htag : .tag op c children ∈ nodes)
    (hblock : .tag op' c' [.text ⟨before.length, block.length⟩] ∈ children)
    (hname : op'.name = k.name) (hk : k ≠ .student) (hmark : ¬ ['/', '/', '<'] <:+: block')
    {o : Options} (hun : ∀ task, Snippet.taskOf (Attributes.read op.region) = .ok task →
      (o.mode.wantsSolution && reached task o.cutoff) = false) :
    List.Forall₂ (Veiled o) (Node.trees (before ++ block ++ after) nodes)
      (Node.trees (before ++ block' ++ after) nodes') := by
  rw [List.append_assoc] at h h' ⊢
  rw [List.append_assoc]
  obtain ⟨l, r, l', r', inside, htrees, hafter, hframe⟩ := exists_frame h htag hblock
  obtain ⟨children', hfills⟩ := exists_fills_of_plain (plain_of_no_mark hmark) hafter before
  obtain ⟨nodes₂, hnodes₂, htrees'⟩ := hframe hfills
  obtain rfl : nodes' = nodes₂ := Except.ok.inj (h'.symm.trans hnodes₂)
  rw [htrees, htrees', hname]
  exact List.rel_append (List.forall₂_same.mpr fun t _ => .same t)
    (.cons (.other hk _ _ _ l' r' _ _ hun) (List.forall₂_same.mpr fun t _ => .same t))

/-- A tag outermost in a text that was read is a snippet of the document. -/
theorem exists_snippet_of_tag {source : Text} {nodes : List Node} {pieces : List Piece}
    (h : List.Forall₂ (PieceOf source) nodes pieces) {o : Opening} {c : Closing}
    {children : List Node} : .tag o c children ∈ nodes →
    ∃ s, Snippet.ofTag source o children = .ok s ∧ .snippet s ∈ pieces := by
  induction h with
  | nil => exact fun hm => absurd hm List.not_mem_nil
  | @cons n p nodes pieces hp _ ih =>
    intro hm
    rcases List.mem_cons.mp hm with rfl | hm
    · cases p with
      | text span => exact absurd hp id
      | snippet s => exact ⟨s, hp.2, List.mem_cons_self ..⟩
    · obtain ⟨s, hs, hmem⟩ := ih hm
      exact ⟨s, hs, List.mem_cons_of_mem p hmem⟩

/-- **Hidden solutions do not influence what is extracted.** The block of a solution or
special solution is replaced by any text without `//<`. What students are given stays the
same, and so does the solution while the task of the snippet is not reached. -/
theorem render_hidden {before block block' after : Text} {d d' : Document}
    (h : Document.parse (before ++ block ++ after) = .ok d)
    (h' : Document.parse (before ++ block' ++ after) = .ok d')
    {nodes children : List Node} {o o' : Opening} {c c' : Closing} {k : Kind}
    (hnodes : parseForest (before ++ block ++ after) = .ok nodes)
    (htag : .tag o c children ∈ nodes)
    (hblock : .tag o' c' [.text ⟨before.length, block.length⟩] ∈ children)
    (hname : o'.name = k.name) (hk : k = .solution ∨ k = .special)
    (hmark : ¬ ['/', '/', '<'] <:+: block') :
    ∃ s, Snippet.ofTag (before ++ block ++ after) o children = .ok s ∧ .snippet s ∈ d.pieces ∧
      ∀ cutoff special,
        (∃ u, d.render ⟨.student, cutoff, special⟩ = .ok u ∧
          d'.render ⟨.student, cutoff, special⟩ = .ok u) ∧
        (reached s.task cutoff = false →
          ∃ u, d.render ⟨.solution, cutoff, special⟩ = .ok u ∧
            d'.render ⟨.solution, cutoff, special⟩ = .ok u) := by
  obtain ⟨hsource, hread⟩ := readable_of_parse h
  obtain ⟨-, nodes₁, htiles, hpieces⟩ := parse_eq_ok_iff.mp h
  obtain ⟨hsource', nodes', htiles', hpieces'⟩ := parse_eq_ok_iff.mp h'
  have hnodes' := parseForest_eq_ok_iff.mpr htiles'
  obtain rfl : nodes = nodes₁ :=
    Except.ok.inj (hnodes.symm.trans (parseForest_eq_ok_iff.mpr htiles))
  obtain ⟨s, hs, hmem⟩ := exists_snippet_of_tag hpieces htag
  obtain ⟨-, htask, -⟩ := Snippet.ofTag_eq_ok_iff.mp hs
  have hstudent : k ≠ .student := by
    rintro rfl
    simp at hk
  -- Both parts extract with options that do not show the solutions of this snippet.
  have hboth : ∀ opts : Options, opts.extracting = opts →
      (opts.mode.wantsSolution && reached s.task opts.cutoff) = false →
      ∃ u, d.render opts = .ok u ∧ d'.render opts = .ok u := by
    intro opts hex hun
    have hm : opts.mode.keepsMarkup = false := hex ▸ Snippet.keepsMarkup_extracting opts
    obtain ⟨u, hu⟩ := renderPieces_extracting opts d.source d.pieces hread.read
    rw [hex] at hu
    have hveiled := forall₂_veiled hnodes hnodes' htag hblock hname hstudent hmark
      fun task ht => Except.ok.inj (htask.symm.trans ht) ▸ hun
    rw [← hsource] at hveiled hpieces
    rw [← hsource'] at hveiled hpieces'
    exact ⟨u, hu, (renderPieces_eq_of_veiled hm hpieces hpieces' hveiled).symm.trans hu⟩
  refine ⟨s, hs, hmem, fun cutoff special => ⟨?_, fun hr => ?_⟩⟩
  · exact hboth ⟨.student, cutoff, special⟩ rfl rfl
  · exact hboth ⟨.solution, cutoff, special⟩ rfl hr

/-- A snippet of the second task, up to its solution. -/
def secretBefore : Text :=
  "//<snippet task=\"2\">\n//<student>\na;\n//</student>\n//<solution>".toList

/-- The end of the snippet. -/
def secretAfter : Text := "//</solution>\n//</snippet>\n".toList

theorem render_hidden_secret : ∃ d d' u,
    Document.parse (secretBefore ++ "\n//b;\n".toList ++ secretAfter) = .ok d ∧
      Document.parse (secretBefore ++ [] ++ secretAfter) = .ok d' ∧ d.snippets ≠ d'.snippets ∧
      d.render ⟨.solution, some (.one 1), false⟩ = .ok u ∧
      d'.render ⟨.solution, some (.one 1), false⟩ = .ok u := by
  let student : Option Variant := some ⟨["a;".toList], true⟩
  let s : Snippet := ⟨[], some (.one 2), student, some ⟨["//b;".toList], false⟩, none⟩
  let s' : Snippet := ⟨[], some (.one 2), student, none, none⟩
  let d : Document :=
    ⟨secretBefore ++ "\n//b;\n".toList ++ secretAfter, [.snippet s, .text ⟨93, 1⟩]⟩
  let d' : Document := ⟨secretBefore ++ [] ++ secretAfter, [.snippet s', .text ⟨87, 1⟩]⟩
  have h : Document.parse (secretBefore ++ "\n//b;\n".toList ++ secretAfter) = .ok d := by
    decide +kernel
  have h' : Document.parse (secretBefore ++ [] ++ secretAfter) = .ok d' := by decide +kernel
  let solution : Node := .tag ⟨49, 12, "solution".toList, []⟩ ⟨67, 13, "solution".toList⟩
    [.text ⟨secretBefore.length, 6⟩]
  let children : List Node := [.text ⟨20, 1⟩,
    .tag ⟨21, 11, "student".toList, []⟩ ⟨36, 12, "student".toList⟩ [.text ⟨32, 4⟩],
    .text ⟨48, 1⟩, solution, .text ⟨80, 1⟩]
  let o : Opening := ⟨0, 20, "snippet".toList, " task=\"2\"".toList⟩
  have hnodes : parseForest (secretBefore ++ "\n//b;\n".toList ++ secretAfter) =
      .ok [.tag o ⟨81, 12, "snippet".toList⟩ children, .text ⟨93, 1⟩] := by rfl
  have hs : Snippet.ofTag (secretBefore ++ "\n//b;\n".toList ++ secretAfter) o children =
      .ok s := by decide +kernel
  obtain ⟨s₁, hs₁, -, hall⟩ := render_hidden h h' hnodes (List.mem_cons_self ..)
    (show solution ∈ children by simp [children]) (k := .solution) rfl (.inl rfl) (by simp)
  obtain rfl : s₁ = s := Except.ok.inj (hs₁.symm.trans hs)
  obtain ⟨u, hu, hu'⟩ := (hall (some (.one 1)) false).2 (by decide)
  exact ⟨d, d', u, h, h', by decide, hu, hu'⟩

end Handout
