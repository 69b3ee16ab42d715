/-
# Snippets woven into a text

A text that was read is woven: a gap, a snippet, a gap, and so on to the last gap. Every
snippet is one that the format takes alone, no marker begins in a gap, and the
indentation of a snippet is the blank end of the gap before it (`Woven`). Nothing else is
asked of the parts, so a woven text is read as its snippets, whatever they are
(`Woven.exists_parse`), and what is read is woven (`exists_woven`).

A snippet takes up all from its opening to its closing marker (`Fills.of_tag`). Behind the
last `>` nothing of it is left open, so it is read alike in every place
(`Fills.carry_tag`), and only its indentation depends on what is before it
(`Snippet.ofTag_of_trees`).

Rendering puts another text in the place of each snippet and leaves the gaps as they are,
so all that stands outside of snippets is kept (`render_keeps_gaps`).

Key definitions: `Inset`, `weave`, `Woven`, `Stand`, `Snippet.rendered`.
Key theorems: `Fills.carry_tag`, `Tiles.exists_woven`, `Woven.exists_parse`,
`Document.render_eq_spelled`, `render_keeps_gaps`.
-/
import Handout.Proofs.Covering
import Handout.Proofs.Hiding
import Handout.Proofs.Switching

namespace Handout

open Marker

/-! ### A tag alone -/

/-- A tag that fills a text runs from its opening to its closing marker, or its opening
marker ends with the closing one. -/
theorem Fills.of_tag {before x after : Text} {o : Opening} {c : Closing} {children : List Node}
    (h : Fills before x after [.tag o c children]) :
    o.start = before.length ∧ c.stop = (before ++ x).length ∧
      ((∃ z, x = openingText o.name o.region ++ (z ++ closingText o.name) ∧
          IsOpening o.name o.region ∧ ¬ Swallows o.region ∧
          Fills (before ++ openingText o.name o.region) z (closingText o.name ++ after) children) ∨
        ∃ g, o.region = g ++ ['/', '/', '<', '/'] ++ o.name ∧ children = [] ∧
          x = openingText o.name o.region ∧ IsOpening o.name o.region) := by
  rw [Fills] at h
  generalize hx : x ++ after = t at h
  generalize hb : (before ++ x).length = b at h
  cases h with
  | @tag _ _ cl w g inner next _ _ _ ho hf inside more =>
    obtain ⟨z, rfl, rfl⟩ := inside.split
    cases more
    obtain rfl : x = openingText w g ++ (z ++ closingText w) :=
      List.append_cancel_right (hx.trans (by simp only [List.append_assoc]))
    refine ⟨rfl, rfl, .inl ⟨z, rfl, ho, hf, ?_⟩⟩
    simp only [Fills, List.length_append]
    exact inside
  | @bare _ _ w g next _ _ ho more =>
    have hstop := stop_swallowed before.length w g
    cases more
    obtain rfl := List.append_cancel_right hx
    exact ⟨rfl, hstop, .inr ⟨g, rfl, rfl, rfl, ho⟩⟩

/-- A tag ends with the `>` of a marker. -/
theorem Fills.endsSolid_of_tag {before x after : Text} {o : Opening} {c : Closing}
    {children : List Node} (h : Fills before x after [.tag o c children]) (front : Text) :
    EndsSolid (front ++ x) := by
  obtain ⟨-, -, ⟨z, rfl, -⟩ | ⟨g, -, -, rfl, -⟩⟩ := h.of_tag
  · rw [closingText, ← List.append_assoc, ← List.append_assoc, ← List.append_assoc]
    exact endsSolid_append_gt _
  · rw [openingText, ← List.append_assoc]
    exact endsSolid_append_gt _

/-- Behind a tag any nodes may follow. -/
theorem Fills.tag_cons {before x after rest : Text} {b : Nat} {o : Opening} {c : Closing}
    {children nodes : List Node} (h : Fills before x after [.tag o c children])
    (more : Tiles (before ++ x).length after nodes b rest) :
    Tiles before.length (x ++ after) (.tag o c children :: nodes) b rest := by
  rw [Fills] at h
  generalize x ++ after = t at h ⊢
  generalize (before ++ x).length = e at h more
  cases h with
  | tag ho hf inside hnil =>
    cases hnil
    exact .tag ho hf inside more
  | bare ho hnil =>
    cases hnil
    exact .bare ho more

theorem fills_nil (before after : Text) : Fills before [] after [] := by
  rw [Fills, List.append_nil]
  exact .nil _ _

/-- **A tag is read alike in every place**, before every continuation. What it holds is
followed by its closing marker wherever it stands. -/
theorem Fills.carry_tag {before x after : Text} {o : Opening} {c : Closing} {children : List Node}
    (h : Fills before x after [.tag o c children]) (before' after' : Text) :
    ∃ o' c' children', Fills before' x after' [.tag o' c' children'] ∧ o'.name = o.name ∧
      o'.region = o.region ∧ Node.trees (before ++ (x ++ after)) children =
        Node.trees (before' ++ (x ++ after')) children' := by
  obtain ⟨-, -, ⟨z, rfl, ho, hf, inside⟩ | ⟨g, hg, rfl, rfl, ho⟩⟩ := h.of_tag
  · obtain ⟨children', hin, htrees⟩ := inside.transfer (before' ++ openingText o.name o.region)
      (exchangeable_closing ho.isName after after')
    obtain ⟨o', c', hname, hregion, hall⟩ := Fills.append_tag ho hf (fills_nil before' _)
      (by simpa only [List.append_nil, List.nil_append] using hin) (fills_nil _ after')
    refine ⟨o', c', children', ?_, hname, hregion, ?_⟩
    · simpa only [List.append_nil, List.nil_append] using hall
    · simpa only [List.append_assoc] using htrees
  · rw [hg] at ho ⊢
    have hbare := Tiles.bare (a := before'.length) ho (.nil _ after')
    rw [← List.length_append] at hbare
    exact ⟨_, _, [], hbare, rfl, rfl, rfl⟩

theorem Node.tagNames_of_trees {source source' : Text} : ∀ {l l' : List Node},
    trees source l = trees source' l' → (tags l).map (·.1.name) = (tags l').map (·.1.name)
  | [], [], _ => rfl
  | [], _ :: _, h => by cases h
  | _ :: _, [], h => by cases h
  | .text _ :: l, .text _ :: l', h => by
    obtain ⟨-, htail⟩ := List.cons.inj h
    rw [tags, tags, tagNames_of_trees htail]
  | .text _ :: _, .tag .. :: _, h => by cases h
  | .tag .. :: _, .text _ :: _, h => by cases h
  | .tag o _ _ :: l, .tag o' _ _ :: l', h => by
    obtain ⟨hhead, htail⟩ := List.cons.inj h
    obtain ⟨hname, -, -⟩ := Tree.tag.inj hhead
    rw [tags, tags, List.map_cons, List.map_cons, hname, tagNames_of_trees htail]

/-- A snippet depends on its region and on what it holds; only its indentation is found
in the text before it. -/
theorem Snippet.ofTag_of_trees {source source' : Text} {o o' : Opening}
    {children children' : List Node} {s : Snippet} (h : ofTag source o children = .ok s)
    (hregion : o'.region = o.region)
    (ht : Node.trees source children = Node.trees source' children') :
    ofTag source' o' children' =
      .ok { s with indentation := indentationBefore source' o'.start } := by
  obtain ⟨-, htask, hv, hu, hl⟩ := ofTag_eq_ok_iff.mp h
  refine ofTag_eq_ok_iff.mpr ⟨rfl, ?_, fun k => ?_, ?_, hl⟩
  · rw [Opening.attributes, hregion]
    exact htask
  · rw [variantOf_eq, ← ht, ← variantOf_eq, hv]
    cases k <;> rfl
  · rw [unknownNames, ← Node.tagNames_of_trees ht]
    exact hu

/-! ### Gaps and snippets -/

/-- A snippet as it stands in a text, with the gap behind it. -/
structure Inset where
  text : Text
  snippet : Snippet
  gap : Text

/-- A first gap and insets, with a text in place of each snippet. -/
def weave (f : Text → Snippet → Text) (first : Text) : List Inset → Text
  | [] => first
  | x :: r => first ++ (f x.text x.snippet ++ weave f x.gap r)

/-- The first gap and the insets are the parts of a text: a snippet is one that is read
alone, and no marker begins in a gap. -/
inductive Woven : Text → List Inset → Prop
  | last {gap : Text} (silent : Silent gap []) : Woven gap []
  | inset {gap : Text} {x : Inset} {r : List Inset} (plain : Plain gap)
      (alone : Document.parse x.text =
        .ok ⟨x.text, [.snippet { x.snippet with indentation := [] }]⟩)
      (indentation : x.snippet.indentation = trailing gap) (more : Woven x.gap r) :
      Woven gap (x :: r)

/-- From index `start` on the first gap and the insets stand in a text whose outermost tags
have these markers: each inset begins with an opening marker and ends with the closing
one. -/
def Stand (start : Nat) (first : Text) : List Inset → List (Opening × Closing) → Prop
  | [], [] => True
  | x :: r, (o, c) :: tags => o.start = start + first.length ∧
      c.stop = o.start + x.text.length ∧ Stand c.stop x.gap r tags
  | _, _ => False

theorem parse_alone_iff {x : Text} {s : Snippet} :
    Document.parse x = .ok ⟨x, [.snippet s]⟩ ↔ ∃ o c children, Fills [] x [] [.tag o c children] ∧
      o.name = Snippet.tagName ∧ Snippet.ofTag x o children = .ok s := by
  rw [parse_eq_ok_iff]
  simp only [Fills, List.append_nil, List.nil_append, List.length_nil, true_and]
  constructor
  · rintro ⟨nodes, ht, hp⟩
    obtain ⟨n, rest, hn, hrest, rfl⟩ := List.forall₂_cons_right_iff.mp hp
    cases hrest
    cases n with
    | text span => exact absurd hn id
    | tag o c children => exact ⟨o, c, children, ht, hn⟩
  · rintro ⟨o, c, children, ht, hn⟩
    exact ⟨_, ht, .cons hn .nil⟩

/-! ### What is read is woven -/

/-- A tag that is a snippet is one that is read alone. -/
theorem Fills.exists_alone {before x after : Text} {o : Opening} {c : Closing}
    {children : List Node} (h : Fills before x after [.tag o c children]) {s : Snippet}
    (hs : PieceOf (before ++ (x ++ after)) (.tag o c children) (.snippet s)) :
    Document.parse x = .ok ⟨x, [.snippet { s with indentation := [] }]⟩ := by
  obtain ⟨o', c', children', halone, hname, hregion, htrees⟩ := h.carry_tag [] []
  obtain ⟨hstart, -⟩ := halone.of_tag
  have hread := Snippet.ofTag_of_trees hs.2 hregion htrees
  rw [List.append_nil, List.nil_append] at hread
  refine parse_alone_iff.mpr ⟨o', c', children', halone, hname.trans hs.1, ?_⟩
  rw [hread, hstart]
  rfl

/-- **The pieces of a text are woven.** The recursion is over the nodes; `gap` is the text
since the last snippet, which joins what follows as long as no other snippet comes. -/
theorem Tiles.exists_woven {source : Text} : ∀ {nodes : List Node} {a b : Nat} {t : Text},
    Tiles a t nodes b [] → ∀ (front gap : Text) {pieces : List Piece},
    source = front ++ (gap ++ t) → (front ++ gap).length = a → EndsSolid front → Silent gap t →
    ((∃ span, nodes.head? = some (.text span)) → gap = []) →
    List.Forall₂ (PieceOf source) nodes pieces →
    ∃ first insets, gap ++ t = weave (fun x _ => x) first insets ∧ Woven first insets ∧
      insets.map Inset.snippet = pieces.filterMap Piece.snippet? ∧
      Stand front.length first insets (nodes.filterMap Node.brackets?) ∧
      ∀ f, gap ++ spelledPieces source f pieces = weave (fun _ => f) first insets
  | [], _, _, _, h, front, gap, _, _, _, _, hsilent, _, hp => by
    cases hp
    cases h
    exact ⟨gap, [], List.append_nil gap, .last hsilent, rfl, trivial,
      fun _ => List.append_nil gap⟩
  | .text span :: r, _, _, _, h, front, gap, _, hs, hf, hsolid, _, hgap, hp => by
    obtain ⟨p, more, hpt, hpr, rfl⟩ := List.forall₂_cons_left_iff.mp hp
    obtain rfl := hgap ⟨span, rfl⟩
    cases h with
    | @text _ _ u next _ _ _ silent apart tiles =>
      rw [List.append_nil] at hf
      rw [List.nil_append] at hs
      subst hf
      obtain ⟨first, insets, ht, hw, hsnippets, hstand, hspelled⟩ := tiles.exists_woven front u hs
        (by rw [List.length_append]) hsolid silent (fun ⟨span, hsp⟩ => absurd hsp (apart span))
        hpr
      cases p with
      | snippet s => exact absurd hpt id
      | text span' =>
        cases hpt
        have hspan : Span.text source ⟨front.length, u.length⟩ = u := by
          rw [hs]
          exact slice_append rfl next
        refine ⟨first, insets, ht, hw, hsnippets, hstand, fun f => ?_⟩
        rw [spelledPieces_cons, Piece.spelled, hspan]
        exact hspelled f
  | .tag o c children :: r, _, _, _, h, front, gap, _, hs, hf, hsolid, hsilent, _, hp => by
    obtain ⟨p, more, hpt, hpr, rfl⟩ := List.forall₂_cons_left_iff.mp hp
    have hmark := h.marksAt (List.cons_ne_nil _ _) (by simp)
    obtain ⟨e, mid, htag, tiles⟩ :=
      Tiles.of_append (show Tiles _ _ ([.tag o c children] ++ r) _ _ from h)
    obtain ⟨x, rfl, rfl⟩ := htag.split
    rw [← hf, ← List.length_append] at tiles htag
    have hfill : Fills (front ++ gap) x mid [.tag o c children] := htag
    have hs' : source = (front ++ gap) ++ (x ++ mid) := by rw [hs, List.append_assoc]
    cases p with
    | text span => exact absurd hpt id
    | snippet s =>
      obtain ⟨hstart, hstop, -⟩ := hfill.of_tag
      obtain ⟨first, insets, ht, hw, hsnippets, hstand, hspelled⟩ := tiles.exists_woven
        (front ++ gap ++ x) [] (by rw [hs']; simp) (by rw [List.append_nil])
        (hfill.endsSolid_of_tag _) (.nil mid) (fun _ => rfl) hpr
      refine ⟨gap, ⟨x, s, first⟩ :: insets, ?_, .inset (hsilent.plain hmark) ?_ ?_ hw, ?_,
        ⟨?_, ?_, hstop ▸ hstand⟩, fun f => ?_⟩
      · rw [weave, ← ht, List.nil_append]
      · exact hfill.exists_alone (hs' ▸ hpt)
      · rw [(Snippet.ofTag_eq_ok_iff.mp hpt.2).1, hstart, hs', indentationBefore_append,
          trailing_append hsolid]
      · rw [List.map_cons, hsnippets]
        rfl
      · rw [hstart, List.length_append]
      · rw [hstop, hstart, List.length_append]
      · rw [weave, ← hspelled f]
        rfl

/-! ### What is woven is read -/

/-- A gap before nodes is one more run of text, or nothing if it is empty. -/
theorem Tiles.exists_gap {source front gap t rest : Text} {b : Nat} {nodes : List Node}
    {pieces : List Piece} (h : Tiles (front ++ gap).length t nodes b rest)
    (hs : source = front ++ (gap ++ t)) (hsilent : Silent gap t)
    (hn : ∀ span, nodes.head? ≠ some (.text span))
    (hp : List.Forall₂ (PieceOf source) nodes pieces) :
    ∃ nodes' pieces', Tiles front.length (gap ++ t) nodes' b rest ∧
      List.Forall₂ (PieceOf source) nodes' pieces' ∧
      pieces'.filterMap Piece.snippet? = pieces.filterMap Piece.snippet? ∧
      ∀ f, spelledPieces source f pieces' = gap ++ spelledPieces source f pieces := by
  by_cases h0 : gap = []
  · subst h0
    rw [List.append_nil] at h
    exact ⟨nodes, pieces, h, hp, rfl, fun f => rfl⟩
  · rw [List.length_append] at h
    refine ⟨.text ⟨front.length, gap.length⟩ :: nodes, .text ⟨front.length, gap.length⟩ :: pieces,
      .text h0 hsilent hn h, .cons rfl hp, rfl, fun f => ?_⟩
    have hspan : Span.text source ⟨front.length, gap.length⟩ = gap := by
      rw [hs]
      exact slice_append rfl t
    rw [spelledPieces_cons, Piece.spelled, hspan]

/-- Woven parts are read as they are, behind every text that does not end with a blank. -/
theorem Woven.exists_nodes {first : Text} {insets : List Inset} (h : Woven first insets) :
    ∀ front : Text, EndsSolid front → ∀ source,
    source = front ++ weave (fun x _ => x) first insets →
    ∃ nodes pieces,
      Tiles front.length (weave (fun x _ => x) first insets) nodes source.length [] ∧
      List.Forall₂ (PieceOf source) nodes pieces ∧
      pieces.filterMap Piece.snippet? = insets.map Inset.snippet ∧
      ∀ f, spelledPieces source f pieces = weave (fun _ => f) first insets := by
  induction h with
  | @last gap silent =>
    intro front _ source hs
    rw [weave] at hs ⊢
    have hnil : Tiles (front ++ gap).length [] [] source.length [] := by
      rw [hs]
      exact .nil _ _
    have hs' : source = front ++ (gap ++ []) := by rw [hs, List.append_nil]
    obtain ⟨nodes, pieces, h1, h2, h3, h4⟩ := hnil.exists_gap hs' silent (by simp) .nil
    rw [List.append_nil] at h1
    exact ⟨nodes, pieces, h1, h2, h3, fun f => (h4 f).trans (List.append_nil gap)⟩
  | @inset gap x r plain alone hind _ ih =>
    intro front hsolid source hs
    rw [weave] at hs ⊢
    set rest := weave (fun x _ => x) x.gap r with hrest
    obtain ⟨o, c, children, hfill, hname, hread⟩ := parse_alone_iff.mp alone
    obtain ⟨o', c', children', hfill', hname', hregion, htrees⟩ :=
      hfill.carry_tag (front ++ gap) rest
    obtain ⟨hstart, -⟩ := hfill'.of_tag
    have hs' : source = (front ++ gap) ++ (x.text ++ rest) := by rw [hs, List.append_assoc]
    obtain ⟨nodes, pieces, h1, h2, h3, h4⟩ := ih (front ++ gap ++ x.text)
      (hfill.endsSolid_of_tag _) source (by rw [hs', ← List.append_assoc])
    -- In its place the snippet has the blank end of the gap for its indentation.
    have hpiece : PieceOf source (.tag o' c' children') (.snippet x.snippet) := by
      refine ⟨hname'.trans hname, ?_⟩
      rw [List.append_nil, List.nil_append, ← hs'] at htrees
      rw [Snippet.ofTag_of_trees hread hregion htrees, hstart, hs', indentationBefore_append,
        trailing_append hsolid, ← hind]
    have htiles := hfill'.tag_cons h1
    have hmark := htiles.marksAt (List.cons_ne_nil _ _) (by simp)
    obtain ⟨nodes', pieces', h5, h6, h7, h8⟩ := htiles.exists_gap hs
      (plain.silent (breaks_of_marksAt hmark)) (by simp) (.cons hpiece h2)
    refine ⟨nodes', pieces', h5, h6, ?_, fun f => ?_⟩
    · rw [h7, List.map_cons, ← h3]
      rfl
    · rw [h8, spelledPieces_cons, h4, weave]
      rfl

theorem endsSolid_nil : EndsSolid [] := fun _ hc => by cases hc

/-- **A woven text is read as its snippets.** -/
theorem Woven.exists_parse {first : Text} {insets : List Inset} (h : Woven first insets) :
    ∃ d, Document.parse (weave (fun x _ => x) first insets) = .ok d ∧
      d.snippets = insets.map Inset.snippet ∧
      ∀ f, spelledPieces d.source f d.pieces = weave (fun _ => f) first insets := by
  obtain ⟨nodes, pieces, h1, h2, h3, h4⟩ := h.exists_nodes [] endsSolid_nil _ rfl
  exact ⟨⟨_, pieces⟩, parse_eq_ok_iff.mpr ⟨rfl, nodes, h1, h2⟩, h3, h4⟩

/-- A text that was read is woven, and its insets are the outermost tags. -/
theorem exists_woven {t : Text} {d : Document} (h : Document.parse t = .ok d) :
    ∃ nodes first insets, parseForest t = .ok nodes ∧ t = weave (fun x _ => x) first insets ∧
      Woven first insets ∧ insets.map Inset.snippet = d.snippets ∧
      Stand 0 first insets (nodes.filterMap Node.brackets?) ∧
      ∀ f, spelledPieces d.source f d.pieces = weave (fun _ => f) first insets := by
  obtain ⟨hsource, nodes, htiles, hp⟩ := parse_eq_ok_iff.mp h
  obtain ⟨first, insets, ht, hw, hsnippets, hstand, hspelled⟩ :=
    htiles.exists_woven [] [] rfl rfl endsSolid_nil (.nil t) (fun _ => rfl) hp
  rw [hsource]
  exact ⟨nodes, first, insets, parseForest_eq_ok_iff.mpr htiles, ht, hw, hsnippets, hstand,
    hspelled⟩

/-! ### Rendering leaves the gaps as they are -/

/-- What a snippet that was read is rendered as. -/
def Snippet.rendered (o : Options) (s : Snippet) : Text :=
  if o.mode.keepsMarkup then s.written o else (s.block? o (activationFor o s).kind).getD []

theorem Options.extracting_eq_self {o : Options} (h : o.mode.keepsMarkup = false) :
    o.extracting = o := by
  obtain ⟨mode, cutoff, prefer⟩ := o
  cases mode with
  | solution => rfl
  | student => rfl
  | fullSolution => cases h
  | fullStudent => cases h

/-- A snippet that was read is rendered in every mode. -/
theorem Snippet.Read.render_eq {s : Snippet} (h : s.Read) (o : Options) :
    s.render o = .ok (s.rendered o) := by
  unfold rendered
  split_ifs with hm
  · exact render_eq_written h hm
  · have := h.render_extracting o
    rwa [o.extracting_eq_self (by simpa using hm)] at this

/-- Where each snippet has a rendering, the pieces have theirs. -/
theorem renderPieces_eq_spelled {o : Options} {source : Text} {f : Snippet → Text} :
    ∀ {pieces : List Piece}, (∀ s ∈ pieces.filterMap Piece.snippet?, s.render o = .ok (f s)) →
    renderPieces o source pieces = .ok (spelledPieces source f pieces)
  | [], _ => rfl
  | .text span :: r, h => by
    rw [renderPieces, renderPieces_eq_spelled (forall_snippets_text.mp h)]
    rfl
  | .snippet s :: r, h => by
    rw [forall_snippets_cons] at h
    rw [renderPieces, renderPieces_eq_spelled h.2, Piece.render, h.1]
    rfl

/-- A document that was read is rendered in every mode, snippet by snippet. -/
theorem Document.render_eq_spelled {t : Text} {d : Document} (h : Document.parse t = .ok d)
    (o : Options) : (∀ s ∈ d.snippets, s.render o = .ok (s.rendered o)) ∧
      d.render o = .ok (spelledPieces d.source (Snippet.rendered o) d.pieces) := by
  have hread := (readable_of_parse h).2.read
  have hrender : ∀ s ∈ d.snippets, s.render o = .ok (s.rendered o) :=
    fun s hs => (hread s hs).render_eq o
  exact ⟨hrender, renderPieces_eq_spelled hrender⟩

/-- A text without markers is all one gap. -/
theorem woven_of_no_markers {t : Text} (h : markers t = []) : Woven t [] := by
  refine .last ((silent_or_scan [] t 0).resolve_right ?_)
  rintro ⟨m, l, covered, hscan⟩
  rw [List.append_nil] at hscan
  exact List.cons_ne_nil _ _ (hscan.symm.trans h)

/-- **Rendering keeps all that stands outside of snippets.** A text that was read is a
sequence of gaps and snippets, where a snippet runs from the opening to the closing marker of
an outermost tag; in every mode the output is the same gaps with the rendering of each
snippet in its place. Without markers the text is rendered as it is. -/
theorem render_keeps_gaps (t : Text) :
    (∀ d, Document.parse t = .ok d → ∃ nodes first insets, parseForest t = .ok nodes ∧
      t = weave (fun x _ => x) first insets ∧
      insets.map Inset.snippet = d.snippets ∧
      Stand 0 first insets (nodes.filterMap Node.brackets?) ∧
      ∀ o, (∀ s ∈ d.snippets, s.render o = .ok (s.rendered o)) ∧
        d.render o = .ok (weave (fun _ s => s.rendered o) first insets)) ∧
      (markers t = [] → ∃ d, Document.parse t = .ok d ∧ ∀ o, d.render o = .ok t) := by
  constructor
  · intro d hd
    obtain ⟨nodes, first, insets, hnodes, ht, -, hsnippets, hstand, hspelled⟩ := exists_woven hd
    refine ⟨nodes, first, insets, hnodes, ht, hsnippets, hstand, fun o => ?_⟩
    obtain ⟨hrender, hall⟩ := Document.render_eq_spelled hd o
    exact ⟨hrender, by rw [hall, hspelled]⟩
  · intro hm
    obtain ⟨d, hd, -, hspelled⟩ := (woven_of_no_markers hm).exists_parse
    refine ⟨d, hd, fun o => ?_⟩
    rw [(Document.render_eq_spelled hd o).2, hspelled]
    rfl

/-- Two snippets without a gap between them; the first is one opening marker that ends with
its closing one. -/
def adjacent : Text :=
  "a\n//<snippet //</snippet>//<snippet>\n//<solution>\nb;\n//</solution>\n//</snippet>\nc".toList

theorem render_keeps_gaps_adjacent :
    (∃ d first insets, Document.parse adjacent = .ok d ∧ d.snippets.length = 2 ∧
      adjacent = weave (fun x _ => x) first insets ∧
      d.render ⟨.student, none, false⟩ =
        .ok (weave (fun _ s => s.rendered ⟨.student, none, false⟩) first insets)) ∧
      ∃ d, Document.parse "a;\r\n".toList = .ok d ∧ ∀ o, d.render o = .ok "a;\r\n".toList := by
  let s : Snippet := ⟨[], none, none, none, none⟩
  let s' : Snippet := ⟨[], none, none, some ⟨["b;".toList], true⟩, none⟩
  let d : Document := ⟨adjacent, [.text ⟨0, 2⟩, .snippet s, .snippet s', .text ⟨79, 2⟩]⟩
  have h : Document.parse adjacent = .ok d := by decide +kernel
  obtain ⟨nodes, first, insets, -, ht, -, -, hrender⟩ := (render_keeps_gaps adjacent).1 d h
  refine ⟨⟨d, first, insets, h, rfl, ht, (hrender ⟨.student, none, false⟩).2⟩, ?_⟩
  exact (render_keeps_gaps "a;\r\n".toList).2 (by decide)

end Handout
