/-
# A written document is read again

Rendering a document with its markup never fails (`render_eq_written`). What it
writes is tiled by the same runs of text and, for each snippet, a tag that holds the
blocks of its variants between lines of their own (`exists_children`), provided that
every block is quiet. So it is read again as the same pieces, where each variant is
what its written block is read as (`Snippet.reread`, `parse_written`).

The blanks around a block are trimmed away with those of the block. The task is
read again because each of its levels is one digit (`TaskNumber.parse?_text`).

Key definitions: `Snippet.block?`, `Snippet.written`, `Snippet.reread`, `Rewritten`.
Key theorems: `render_eq_written`, `exists_children`, `ofTag_written`,
`parse_written`, `length_markers_written`.
-/
import Handout.Proofs.Attributing
import Handout.Proofs.Numbering
import Handout.Proofs.Quiet
import Mathlib.Algebra.GroupWithZero.Nat

namespace Handout

open Marker

/-! ### The attribute of a task -/

namespace TaskNumber

/-- The text of a number with one digit a level has digits and dots only. -/
theorem not_mem_text {n : TaskNumber} (h : ∀ l ∈ n.levels, l ≤ 9) {c : Char} (hc : digit? c = none)
    (hdot : c ≠ '.') : c ∉ n.text := by
  refine Text.not_mem_joinWith (by simpa using hdot) fun t ht => ?_
  obtain ⟨a, ha, rfl⟩ := List.mem_map.mp ht
  obtain ⟨d, hd, hd'⟩ := exists_digit (h a ha)
  rw [hd, List.mem_singleton]
  rintro rfl
  rw [hc] at hd'
  cases hd'

end TaskNumber

namespace Snippet

theorem isName_tagName : IsName tagName := .of_all (by decide) (by decide)

theorem isName_taskKey : IsName taskKey := .of_all (by decide) (by decide)

/-- The attributes of a snippet. -/
def taskPairs (task : Option TaskNumber) : List (Text × Text) :=
  task.toList.map fun n => (taskKey, n.text)

theorem taskMarkup_eq (task : Option TaskNumber) :
    taskMarkup task = attributesText (taskPairs task) := by
  cases task with
  | none => rfl
  | some n => simp [taskMarkup, taskPairs, attributesText, attributeText]

theorem isAttribute_taskPairs {task : Option TaskNumber}
    (h : ∀ n, task = some n → ∀ l ∈ n.levels, l ≤ 9) : ∀ p ∈ taskPairs task, IsAttribute p := by
  intro p hp
  obtain ⟨n, hn, rfl⟩ := List.mem_map.mp hp
  have hlevels := h n (Option.mem_toList.mp hn)
  exact ⟨isName_taskKey, TaskNumber.not_mem_text hlevels (by decide) (by decide),
    TaskNumber.not_mem_text hlevels (by decide) (by decide),
    TaskNumber.not_mem_text hlevels (by decide) (by decide)⟩

/-- The task of a snippet is read from its attribute. -/
theorem taskOf_taskMarkup {task : Option TaskNumber}
    (h : ∀ n, task = some n → ∀ l ∈ n.levels, l ≤ 9) :
    taskOf (Attributes.read (taskMarkup task)) = .ok task := by
  rw [taskMarkup_eq, Attributes.read_attributesText (isAttribute_taskPairs h)]
  cases task with
  | none => rfl
  | some n => simp [taskPairs, Attributes.ofPairs, Attributes.put, taskOf, Attributes.get?,
      TaskNumber.parse?_text (h n rfl)]

theorem isOpening_taskMarkup {task : Option TaskNumber}
    (h : ∀ n, task = some n → ∀ l ∈ n.levels, l ≤ 9) : IsOpening tagName (taskMarkup task) := by
  rw [taskMarkup_eq]
  exact isOpening_attributesText isName_tagName (isAttribute_taskPairs h)

theorem not_swallows_taskMarkup (task : Option TaskNumber) : ¬ Swallows (taskMarkup task) := by
  rw [taskMarkup_eq]
  exact not_swallows_attributesText _

end Snippet

/-! ### The text of a snippet -/

theorem Kind.name_injective {k k' : Kind} : k.name = k'.name → k = k' := by
  cases k <;> cases k' <;> decide

theorem Kind.mem_all (k : Kind) : k ∈ Kind.all := by
  cases k <;> decide

namespace Snippet

/-- The text of the variant of a kind, in the state that a rendering wants. -/
def block? (o : Options) (s : Snippet) (k : Kind) : Option Text :=
  (s.variant? k).map fun v => v.shown ((activationFor o s).isActive k) s.indentation

/-- The kinds that a snippet has and their texts. -/
def blocks (o : Options) (s : Snippet) : List (Kind × Text) :=
  Kind.all.filterMap fun k => (s.block? o k).map (k, ·)

/-- What stands between the markers of a snippet: blocks between markers of their
own, every part on a new line. -/
def inner (indentation : Text) : List (Kind × Text) → Text
  | [] => startLine indentation
  | (k, block) :: r => startLine indentation ++ (openingText k.name [] ++
      ((startLine indentation ++ block ++ startLine indentation) ++
        (closingText k.name ++ inner indentation r)))

/-- The text of a snippet with its markup. -/
def written (o : Options) (s : Snippet) : Text :=
  openingText tagName (taskMarkup s.task) ++
    (inner s.indentation (s.blocks o) ++ closingText tagName)

theorem Read.render_variant {s : Snippet} (h : s.Read) {k : Kind} {v : Variant}
    (hk : s.variant? k = some v) (wantLive : Bool) :
    v.render wantLive s.indentation = .ok (v.shown wantLive s.indentation) := by
  obtain ⟨raw, -, rfl⟩ := h.variant k v hk
  exact Variant.render_ofBlock raw wantLive s.indentation

theorem renderVariants_eq {s : Snippet} (h : s.Read) (o : Options) : ∀ kinds : List Kind,
    s.renderVariants (activationFor o s) kinds =
      .ok ((kinds.filterMap fun k => (s.block? o k).map (k, ·)).flatMap fun p =>
        variantMarkup s.indentation p.1 p.2)
  | [] => rfl
  | k :: r => by
    rw [renderVariants, renderVariants_eq h o r]
    cases hk : s.variant? k with
    | none => simp [block?, hk]
    | some v =>
      simp only [h.render_variant hk]
      simp [block?, hk, bind, Except.bind, pure, Except.pure]

theorem inner_eq (indentation : Text) : ∀ blocks : List (Kind × Text),
    '\n' :: ((blocks.flatMap fun p => variantMarkup indentation p.1 p.2) ++ indentation) =
      inner indentation blocks
  | [] => rfl
  | (k, block) :: r => by
    rw [List.flatMap_cons, List.append_assoc, variantMarkup_eq, inner_eq indentation r]
    rfl

/-- Rendering a snippet with its markup gives its text. -/
theorem render_eq_written {s : Snippet} (h : s.Read) {o : Options}
    (hm : o.mode.keepsMarkup = true) : s.render o = .ok (s.written o) := by
  unfold render
  rw [if_pos hm, renderVariants_eq h, written, ← inner_eq]
  simp [bind, Except.bind, pure, Except.pure, blocks]

theorem lookup_filterMap (f : Kind → Option Text) (k : Kind) : ∀ kinds : List Kind,
    (kinds.filterMap fun x => (f x).map (x, ·)).lookup k = if k ∈ kinds then f k else none
  | [] => rfl
  | x :: kinds => by
    have ih := lookup_filterMap f k kinds
    by_cases hk : k = x
    · subst hk
      cases hf : f k with
      | none => simpa [hf] using ih
      | some b => simp [hf]
    · have hkx : (k == x) = false := by simpa using hk
      cases hf : f x with
      | none => simpa [hf, hk] using ih
      | some b => simpa [hf, hk, List.lookup_cons, hkx] using ih

theorem lookup_blocks (o : Options) (s : Snippet) (k : Kind) :
    (s.blocks o).lookup k = s.block? o k := by
  rw [blocks, lookup_filterMap, if_pos k.mem_all]

theorem mem_blocks_iff {o : Options} {s : Snippet} {k : Kind} {b : Text} :
    (k, b) ∈ s.blocks o ↔ s.block? o k = some b := by
  cases k <;> simp [blocks, Kind.all]

/-! ### Reading it again -/

/-- A tag that holds a block between lines of its own. -/
def Holds (source indentation : Text) (p : Kind × Text) (t : Opening × List Node) : Prop :=
  t.1.name = p.1.name ∧ ∃ span : Span, t.2 = [.text span] ∧
    span.text source = startLine indentation ++ p.2 ++ startLine indentation

/-- Quiet blocks between their markers are tags that hold them. -/
theorem exists_children (source : Text) {indentation : Text} (hi : AllBlank indentation) (next : Text) :
    ∀ (blocks : List (Kind × Text)) (front : Text),
    (∀ p ∈ blocks, Quiet indentation p.2) →
    source = front ++ (inner indentation blocks ++ next) →
    ∃ children, Tiles front.length (inner indentation blocks ++ next) children
        (front.length + (inner indentation blocks).length) next ∧
      List.Forall₂ (Holds source indentation) blocks (Node.tags children)
  | [], front, _, hs => by
    refine ⟨[.text ⟨front.length, (startLine indentation).length⟩], ?_, .nil⟩
    exact .text (by simp [inner, startLine]) (silent_startLine hi _) (by simp) (.nil _ _)
  | (k, b) :: r, front, hq, hs => by
    set mid := startLine indentation ++ b ++ startLine indentation with hmid
    set lead := front ++ startLine indentation ++ openingText k.name [] with hlead
    have hs' : source = (lead ++ mid ++ closingText k.name) ++ (inner indentation r ++ next) := by
      rw [hs, inner]
      simp [hlead, hmid]
    obtain ⟨children, ht, hf⟩ := exists_children source hi next r (lead ++ mid ++ closingText k.name)
      (fun p hp => hq p (List.mem_cons_of_mem _ hp)) hs'
    have hspan : (⟨lead.length, mid.length⟩ : Span).text source = mid := by
      rw [hs', List.append_assoc, List.append_assoc]
      exact slice_append rfl _
    have hsilent : Silent mid (closingText k.name ++ (inner indentation r ++ next)) :=
      (hq _ (List.mem_cons_self ..)).silent (breaks_of_marksAt (marksAt_closingText k.isName _))
    have hinside : Tiles lead.length (mid ++ (closingText k.name ++ (inner indentation r ++ next)))
        [.text ⟨lead.length, mid.length⟩] (lead.length + mid.length)
        (closingText k.name ++ (inner indentation r ++ next)) :=
      .text (by simp [hmid, startLine]) hsilent (by simp) (.nil _ _)
    have hl1 : lead.length =
        front.length + (startLine indentation).length + (openingText k.name []).length := by
      simp only [hlead, List.length_append]
    have hl2 : (lead ++ mid ++ closingText k.name).length =
        lead.length + mid.length + (closingText k.name).length := by
      simp only [List.length_append]
    have hl3 : (lead ++ mid ++ closingText k.name).length + (inner indentation r).length =
        front.length + (inner indentation ((k, b) :: r)).length := by
      simp only [inner, hlead, List.length_append, ← hmid]
      omega
    rw [hl3, hl2] at ht
    rw [hl1] at hinside ht hspan
    have htag := Tiles.tag (isOpening_nil k.isName) not_swallows_nil hinside ht
    have hall := Tiles.text (by simp [startLine]) (silent_startLine hi _) (by simp) htag
    have hinner : inner indentation ((k, b) :: r) ++ next = startLine indentation ++
        (openingText k.name [] ++ (mid ++ (closingText k.name ++ (inner indentation r ++ next)))) := by
      simp [inner, hmid]
    rw [← hinner] at hall
    exact ⟨_, hall, .cons ⟨rfl, _, rfl, hspan⟩ hf⟩

/-- The first tag of a kind holds its block. -/
theorem find?_of_holds {source indentation : Text} {blocks : List (Kind × Text)}
    {tags : List (Opening × List Node)} (h : List.Forall₂ (Holds source indentation) blocks tags)
    (k : Kind) : match blocks.lookup k with
      | none => tags.find? (fun t => t.1.name = k.name) = none
      | some b => ∃ t, tags.find? (fun t => t.1.name = k.name) = some t ∧
          Holds source indentation (k, b) t := by
  induction h with
  | nil => rfl
  | @cons p t blocks tags hp _ ih =>
    obtain ⟨k', b⟩ := p
    rw [List.lookup_cons, List.find?_cons]
    by_cases hk : k = k'
    · subst hk
      simp only [BEq.rfl, hp.1, decide_true]
      exact ⟨t, rfl, hp⟩
    · have h1 : (k == k') = false := by simpa using hk
      have h2 : t.1.name ≠ k.name := fun e => hk (Kind.name_injective (e.symm.trans hp.1))
      simpa only [h1, h2, decide_false] using ih

/-- Each variant is read as what its block is read as. -/
theorem variantOf_of_holds {source indentation : Text} (hi : AllBlank indentation)
    {blocks : List (Kind × Text)} {children : List Node}
    (h : List.Forall₂ (Holds source indentation) blocks (Node.tags children)) (k : Kind) :
    variantOf source children k = .ok ((blocks.lookup k).map Variant.ofBlock) := by
  have hf := find?_of_holds h k
  unfold variantOf Node.findTag?
  cases hb : blocks.lookup k with
  | none =>
    rw [hb] at hf
    simp only at hf
    rw [hf]
    rfl
  | some b =>
    rw [hb] at hf
    obtain ⟨⟨o, cs⟩, ht, -, span, hc, hs⟩ := hf
    simp only at hc hs
    rw [ht, hc]
    simp only [Option.map_some]
    rw [hs, Variant.ofBlock_around (startLine_allBlank hi) (startLine_allBlank hi)]

theorem name_of_holds {source indentation : Text} {blocks : List (Kind × Text)}
    {tags : List (Opening × List Node)} (h : List.Forall₂ (Holds source indentation) blocks tags) :
    ∀ t ∈ tags, ∃ k : Kind, t.1.name = k.name := by
  induction h with
  | nil => simp
  | cons hp _ ih =>
    intro t ht
    rcases List.mem_cons.mp ht with rfl | ht
    · exact ⟨_, hp.1⟩
    · exact ih t ht

theorem unknownNames_of_holds {source indentation : Text} {blocks : List (Kind × Text)}
    {children : List Node}
    (h : List.Forall₂ (Holds source indentation) blocks (Node.tags children)) :
    unknownNames children = [] := by
  rw [unknownNames, List.filter_eq_nil_iff]
  intro name hname
  obtain ⟨t, ht, rfl⟩ := List.mem_map.mp hname
  obtain ⟨k, hk⟩ := name_of_holds h t ht
  have hmem : k.name ∈ Kind.all.map Kind.name := List.mem_map_of_mem k.mem_all
  simpa [hk] using hmem

/-- The snippet that a written snippet is read as. -/
def reread (o : Options) (s : Snippet) : Snippet :=
  ⟨s.indentation, s.task, (s.block? o .student).map Variant.ofBlock,
    (s.block? o .solution).map Variant.ofBlock, (s.block? o .special).map Variant.ofBlock⟩

theorem variant?_reread (o : Options) (s : Snippet) (k : Kind) :
    (s.reread o).variant? k = (s.block? o k).map Variant.ofBlock := by
  cases k <;> rfl

theorem Read.unbroken {s : Snippet} (h : s.Read) : Unbroken s.indentation :=
  unbroken_of_isInlineBlank h.indentation

theorem Read.allBlank {s : Snippet} (h : s.Read) : AllBlank s.indentation :=
  allBlank_of_isInlineBlank h.indentation

theorem exists_of_block? {o : Options} {s : Snippet} {k : Kind} {b : Text}
    (hb : s.block? o k = some b) : ∃ v, s.variant? k = some v ∧
      b = v.shown ((activationFor o s).isActive k) s.indentation := by
  obtain ⟨v, hv, rfl⟩ := Option.map_eq_some_iff.mp hb
  exact ⟨v, hv, rfl⟩

/-- Variants that are not active are not live when they are read again. -/
theorem Read.live_ofBlock {s : Snippet} (h : s.Read) {o : Options} {k : Kind} {b : Text}
    (hb : s.block? o k = some b) (hk : (activationFor o s).isActive k = false) :
    (Variant.ofBlock b).live = false := by
  obtain ⟨v, hv, rfl⟩ := exists_of_block? hb
  obtain ⟨raw, -, rfl⟩ := h.variant k v hv
  rw [hk]
  exact Variant.live_ofBlock_shown_false h.unbroken h.allBlank raw

theorem liveKinds_reread {s : Snippet} (h : s.Read) (o : Options) :
    ∀ k ∈ (s.reread o).liveKinds, k = (activationFor o s).kind := by
  intro k hk
  rw [liveKinds, List.mem_filter, variant?_reread] at hk
  by_contra hne
  cases hb : s.block? o k with
  | none => simp [hb] at hk
  | some b =>
    have := h.live_ofBlock hb (by simpa [Activation.isActive] using hne)
    simp [hb, this] at hk

theorem length_liveKinds_reread {s : Snippet} (h : s.Read) (o : Options) :
    (s.reread o).liveKinds.length ≤ 1 := by
  have hnd : (s.reread o).liveKinds.Nodup := List.Nodup.sublist List.filter_sublist (by decide)
  have hk := liveKinds_reread h o
  match hl : (s.reread o).liveKinds with
  | [] => simp
  | [_] => simp
  | a :: b :: r =>
    rw [hl] at hk hnd
    have ha := hk a (by simp)
    have hb := hk b (by simp)
    simp [ha, hb] at hnd

/-- **A written snippet is read as its blocks are**, where its indentation stands
before it. -/
theorem ofTag_written {s : Snippet} (h : s.Read) (o : Options) {source : Text} {start length : Nat}
    {children : List Node} (hi : indentationBefore source start = s.indentation)
    (hc : List.Forall₂ (Holds source s.indentation) (s.blocks o) (Node.tags children)) :
    ofTag source ⟨start, length, tagName, taskMarkup s.task⟩ children = .ok (s.reread o) := by
  refine ofTag_eq_ok_iff.mpr ⟨hi.symm, taskOf_taskMarkup h.task, fun k => ?_,
    unknownNames_of_holds hc, length_liveKinds_reread h o⟩
  rw [variantOf_of_holds h.allBlank hc, lookup_blocks, variant?_reread]

/-- Every block of a rendering is quiet. -/
def Calm (o : Options) (s : Snippet) : Prop :=
  ∀ k b, s.block? o k = some b → Quiet s.indentation b

theorem written_append (o : Options) (s : Snippet) (next : Text) :
    s.written o ++ next = openingText tagName (taskMarkup s.task) ++
      (inner s.indentation (s.blocks o) ++ (closingText tagName ++ next)) := by
  simp [written]

theorem Read.marksAt_written {s : Snippet} (h : s.Read) (o : Options) (next : Text) :
    marksAt (s.written o ++ next) = true := by
  rw [written_append]
  exact marksAt_iff.mpr (.inl ⟨_, _, _, isOpening_taskMarkup h.task, rfl⟩)

/-- A written snippet is one tag, and it is read as the snippet read again. -/
theorem exists_tag_written {s : Snippet} (h : s.Read) {o : Options} (hq : s.Calm o)
    {target front next : Text} (ht : target = front ++ (s.written o ++ next))
    (hi : trailing front = s.indentation) : ∃ opening closing children,
      PieceOf target (.tag opening closing children) (.snippet (s.reread o)) ∧
        ∀ {nodes b rest}, Tiles (front ++ s.written o).length next nodes b rest →
          Tiles front.length (s.written o ++ next) (.tag opening closing children :: nodes) b
            rest := by
  set op := openingText tagName (taskMarkup s.task) with hop
  set body := inner s.indentation (s.blocks o) with hbody
  have hw := written_append o s next
  obtain ⟨children, hin, hc⟩ := exists_children target h.allBlank
    (closingText tagName ++ next) (s.blocks o) (front ++ op) (fun p hp => hq p.1 p.2
      (mem_blocks_iff.mp hp)) (by rw [ht, hw, List.append_assoc])
  refine ⟨⟨front.length, op.length, tagName, taskMarkup s.task⟩,
    ⟨(front ++ op).length + body.length, (closingText tagName).length, tagName⟩, children,
    ⟨rfl, ofTag_written h o ?_ hc⟩, fun hmore => ?_⟩
  · rw [ht, indentationBefore_append, hi]
  · have hlen : (front ++ s.written o).length =
        (front ++ op).length + body.length + (closingText tagName).length := by
      simp only [written, List.length_append, ← hop, ← hbody]
      omega
    rw [hlen] at hmore
    rw [hw]
    refine .tag (isOpening_taskMarkup h.task) (not_swallows_taskMarkup _) ?_ hmore
    rwa [← List.length_append]

end Snippet

/-! ### The text of a document -/

/-- The text of a piece with its markup. -/
def Piece.written (o : Options) (source : Text) : Piece → Text
  | text span => span.text source
  | snippet s => s.written o

/-- The text of some pieces with their markup. -/
def writtenPieces (o : Options) (source : Text) (pieces : List Piece) : Text :=
  pieces.flatMap (Piece.written o source)

theorem writtenPieces_cons (o : Options) (source : Text) (p : Piece) (r : List Piece) :
    writtenPieces o source (p :: r) = p.written o source ++ writtenPieces o source r := rfl

/-- Rendering with the markup never fails. -/
theorem renderPieces_eq {o : Options} (hm : o.mode.keepsMarkup = true) {source : Text} :
    ∀ {pieces : List Piece} {gap : Text}, Readable source gap pieces →
      renderPieces o source pieces = .ok (writtenPieces o source pieces)
  | [], _, _ => rfl
  | .text span :: r, _, h => by
    rw [renderPieces, renderPieces_eq hm h.2.2.2.2]
    rfl
  | .snippet s :: r, _, h => by
    rw [renderPieces, renderPieces_eq hm h.2.2, Piece.render, Snippet.render_eq_written h.2.1 hm]
    rfl

/-- After text comes a snippet, whose marker does not join the text. -/
theorem Readable.silent {source : Text} {span : Span} {gap : Text} {r : List Piece}
    (h : Readable source gap (.text span :: r)) (o : Options) :
    Silent (span.text source) (writtenPieces o source r) := by
  obtain ⟨-, hne, hlast, hplain, hr⟩ := h
  match r, hr with
  | [], _ => exact hlast rfl
  | .text _ :: _, hr => exact absurd hr.1 hne
  | .snippet s :: r, hr =>
    refine (hplain (by simp)).silent (breaks_of_marksAt ?_)
    rw [writtenPieces_cons]
    exact hr.2.1.marksAt_written o _

/-- A piece and what its text is read as. -/
def Rewritten (o : Options) (source target : Text) : Piece → Piece → Prop
  | .text span, .text span' => span'.text target = span.text source
  | .snippet s, .snippet s' => s' = s.reread o
  | _, _ => False

/-- The text of some pieces is tiled by nodes that are read as these pieces again.
The induction is on the pieces; `gap` is the text since the last snippet, which the
indentation of the next one is taken from. -/
theorem exists_nodes_written {o : Options} {source : Text} (target : Text) : ∀ {pieces : List Piece}
    {gap : Text} (front : Text), Readable source gap pieces →
    (∀ s, .snippet s ∈ pieces → s.Calm o) → EndsSolid front →
    target = front ++ gap ++ writtenPieces o source pieces →
    ∃ nodes pieces', Tiles (front ++ gap).length (writtenPieces o source pieces) nodes
        target.length [] ∧
      List.Forall₂ (PieceOf target) nodes pieces' ∧
        List.Forall₂ (Rewritten o source target) pieces pieces' ∧
          (gap ≠ [] → ∀ span, nodes.head? ≠ some (.text span))
  | [], gap, front, _, _, _, ht => by
    refine ⟨[], [], ?_, .nil, .nil, by simp⟩
    rw [ht, writtenPieces, List.flatMap_nil, List.append_nil]
    exact .nil _ []
  | .text span :: r, gap, front, h, hq, hsolid, ht => by
    have hsilent := h.silent o
    obtain ⟨rfl, hne, -, -, hr⟩ := h
    rw [List.append_nil] at ht ⊢
    rw [writtenPieces_cons, Piece.written] at ht ⊢
    obtain ⟨nodes, pieces', h1, h2, h3, h4⟩ := exists_nodes_written target front hr
      (fun s hs => hq s (List.mem_cons_of_mem _ hs)) hsolid (by rw [ht, List.append_assoc])
    rw [List.length_append] at h1
    refine ⟨.text ⟨front.length, (span.text source).length⟩ :: nodes,
      .text ⟨front.length, (span.text source).length⟩ :: pieces',
      .text hne hsilent (h4 hne) h1, .cons rfl h2, .cons ?_ h3, fun h0 => absurd rfl h0⟩
    rw [Rewritten, ht]
    exact slice_append rfl _
  | .snippet s :: r, gap, front, h, hq, hsolid, ht => by
    obtain ⟨hi, hs, hr⟩ := h
    rw [writtenPieces_cons, Piece.written] at ht ⊢
    have hend : EndsSolid (front ++ gap ++ s.written o) := by
      rw [Snippet.written, closingText, ← List.append_assoc, ← List.append_assoc,
        ← List.append_assoc]
      exact endsSolid_append_gt _
    obtain ⟨nodes, pieces', h1, h2, h3, -⟩ := exists_nodes_written target
      (front ++ gap ++ s.written o) hr (fun s hs => hq s (List.mem_cons_of_mem _ hs)) hend
      (by rw [ht]; simp)
    obtain ⟨opening, closing, children, hp, htag⟩ := Snippet.exists_tag_written hs
      (hq s (List.mem_cons_self ..)) ht (by rw [trailing_append hsolid, hi])
    rw [List.append_nil] at h1
    exact ⟨_, _, htag h1, .cons hp h2, .cons rfl h3, by simp⟩

/-- **What is written without new markers is read again as the same pieces**, each
variant as its block is read. -/
theorem parse_written {t : Text} {d : Document} (h : Document.parse t = .ok d) {o : Options}
    (hq : ∀ s ∈ d.snippets, s.Calm o) :
    ∃ d', Document.parse (writtenPieces o d.source d.pieces) = .ok d' ∧
      List.Forall₂ (Rewritten o d.source d'.source) d.pieces d'.pieces := by
  obtain ⟨-, hr⟩ := readable_of_parse h
  obtain ⟨nodes, pieces', h1, h2, h3, -⟩ := exists_nodes_written (o := o) _ [] hr
    (fun s hs => hq s (List.mem_filterMap.mpr ⟨_, hs, rfl⟩)) (by simp [EndsSolid]) rfl
  exact ⟨⟨_, pieces'⟩, parse_eq_ok_iff.mpr ⟨rfl, nodes, h1, h2⟩, h3⟩

/-! ### How many markers are written -/

theorem length_markers_flatMap (indentation next : Text) : ∀ blocks : List (Kind × Text),
    (markers ((blocks.flatMap fun p => variantMarkup indentation p.1 p.2) ++ next)).length =
      (blocks.map fun p => (markers (variantMarkup indentation p.1 p.2)).length).sum +
        (markers next).length
  | [] => by simp
  | (k, b) :: r => by
    rw [List.flatMap_cons, List.append_assoc, length_markers_variantMarkup_append,
      length_markers_flatMap indentation next r, List.map_cons, List.sum_cons, Nat.add_assoc]

namespace Snippet

/-- The number of markers of a written snippet, those in its blocks included. -/
def markerCount (o : Options) (s : Snippet) : Nat :=
  2 + ((s.blocks o).map fun p => (markers (variantMarkup s.indentation p.1 p.2)).length).sum

theorem length_markers_written {s : Snippet} (h : s.Read) (o : Options) (next : Text) :
    (markers (s.written o ++ next)).length = s.markerCount o + (markers next).length := by
  have hind : ∀ rest, (markers (s.indentation ++ rest)).length = (markers rest).length :=
    fun rest => length_markers_silent (silent_of_no_slash
      (not_mem_of_allBlank h.allBlank (by decide)) rest)
  have hfeed : ∀ rest, (markers ('\n' :: rest)).length = (markers rest).length := fun rest =>
    length_markers_silent (t := ['\n']) (silent_of_no_slash (by decide) rest)
  rw [written_append, length_markers_opening (isOpening_taskMarkup h.task)
    (not_swallows_taskMarkup _), ← inner_eq, List.cons_append, hfeed, List.append_assoc,
    length_markers_flatMap, hind, length_markers_closing isName_tagName, markerCount]
  omega

/-- There is a block for each kind that has a variant. -/
theorem map_fst_blocks (o : Options) (s : Snippet) :
    (s.blocks o).map Prod.fst = s.presentKinds := by
  unfold blocks presentKinds
  induction Kind.all with
  | nil => rfl
  | cons k r ih =>
    cases hk : s.variant? k with
    | none => simpa [block?, hk] using ih
    | some v => simpa [block?, hk] using ih

theorem length_blocks (o : Options) (s : Snippet) :
    (s.blocks o).length = s.presentKinds.length := by
  rw [← map_fst_blocks o, List.length_map]

end Snippet

theorem length_markers_writtenPieces {o : Options} {source : Text} : ∀ {pieces : List Piece}
    {gap : Text}, Readable source gap pieces →
    (markers (writtenPieces o source pieces)).length =
      ((pieces.filterMap Piece.snippet?).map (Snippet.markerCount o)).sum
  | [], _, _ => rfl
  | .text span :: r, gap, h => by
    rw [writtenPieces_cons, Piece.written, length_markers_silent (h.silent o),
      length_markers_writtenPieces h.2.2.2.2]
    rfl
  | .snippet s :: r, gap, h => by
    rw [writtenPieces_cons, Piece.written, Snippet.length_markers_written h.2.1,
      length_markers_writtenPieces h.2.2]
    rfl

theorem sum_map_eq_iff {α : Type} {f g : α → Nat} : ∀ {l : List α}, (∀ x ∈ l, g x ≤ f x) →
    ((l.map f).sum = (l.map g).sum ↔ ∀ x ∈ l, f x = g x) ∧ (l.map g).sum ≤ (l.map f).sum
  | [], _ => by simp
  | x :: l, h => by
    obtain ⟨ih, hle⟩ := sum_map_eq_iff fun y hy => h y (List.mem_cons_of_mem x hy)
    have hx := h x (List.mem_cons_self ..)
    simp only [List.map_cons, List.sum_cons, List.forall_mem_cons]
    rw [← ih]
    omega

/-- A snippet has two markers of its own and two for each variant, and has more
exactly when a block is not quiet. -/
theorem Snippet.markerCount_eq_iff {s : Snippet} (h : s.Read) (o : Options) :
    (s.markerCount o = 2 + 2 * s.presentKinds.length ↔ s.Calm o) ∧
      2 + 2 * s.presentKinds.length ≤ s.markerCount o := by
  have hsum : ((s.blocks o).map fun _ => 2).sum = 2 * s.presentKinds.length := by
    rw [List.map_const', List.sum_replicate_nat, length_blocks, Nat.mul_comm]
  have htwo : ∀ p ∈ s.blocks o, 2 ≤ (markers (variantMarkup s.indentation p.1 p.2)).length :=
    fun p _ => (length_markers_variantMarkup h.allBlank p.1 p.2).1
  obtain ⟨hiff, hle⟩ := sum_map_eq_iff htwo
  rw [hsum] at hiff hle
  rw [markerCount, Nat.add_left_cancel_iff, hiff]
  refine ⟨⟨fun hall k b hb => ?_, fun hc p hp => ?_⟩, Nat.add_le_add_left hle 2⟩
  · exact (length_markers_variantMarkup h.allBlank k b).2.mp (hall (k, b) (mem_blocks_iff.mpr hb))
  · exact (length_markers_variantMarkup h.allBlank p.1 p.2).2.mpr
      (hc p.1 p.2 (mem_blocks_iff.mp hp))

theorem Readable.read {source : Text} : ∀ {pieces : List Piece} {gap : Text},
    Readable source gap pieces → ∀ s ∈ pieces.filterMap Piece.snippet?, s.Read
  | [], _, _ => by simp
  | .text _ :: r, _, h => h.2.2.2.2.read
  | .snippet s :: r, _, h =>
    show ∀ x ∈ s :: r.filterMap Piece.snippet?, x.Read from
      List.forall_mem_cons.mpr ⟨h.2.1, h.2.2.read⟩

end Handout
