/-
# Rendering with markup and reading again

A rendering that keeps the markup is meant to be read again. Two things can go
wrong, and nothing else.

* Bringing a variant into its state puts comment marks in front of lines or takes
  them away, and either can make a marker. The text has the markers it should have,
  and is read as the same pieces, exactly when no toggled block does
  (`render_closed_iff`).
* The block of the active variant may come out with blanks at its ends or
  without a live line: `// a();` becomes ` a();`, and `////` becomes `//`. Rendering a
  second time changes the text exactly then (`render_again_iff`).

Where neither happens, reading undoes rendering and extraction gives the same text
before and after (`parse_render`).

Key definitions: `Snippet.Renders`, `Document.MakesNoMarkers`, `Snippet.ReadAs`,
`Options.extracting`.
Key theorems: `render_closed_iff`, `render_again_iff`, `parse_render`.
-/
import Handout.Proofs.Writing

namespace Handout

/-! ### Rendered blocks -/

/-- The block that a rendering gives for the variant of a kind. -/
def Snippet.Renders (o : Options) (s : Snippet) (k : Kind) (block : Text) : Prop :=
  ∃ v, s.variant? k = some v ∧
    v.render ((activationFor o s).isActive k) s.indentation = .ok block

/-- No block that changes its state brings markers besides the two around it. -/
def Document.MakesNoMarkers (o : Options) (d : Document) : Prop :=
  ∀ s ∈ d.snippets, ∀ k v block, s.variant? k = some v →
    v.live ≠ (activationFor o s).isActive k →
    v.render ((activationFor o s).isActive k) s.indentation = .ok block →
    (markers (variantMarkup s.indentation k block)).length = 2

namespace Snippet

theorem Read.renders_iff {s : Snippet} (h : s.Read) {o : Options} {k : Kind} {b : Text} :
    s.Renders o k b ↔ s.block? o k = some b := by
  constructor
  · rintro ⟨v, hv, hb⟩
    rw [h.render_variant hv, Except.ok.injEq] at hb
    rw [block?, hv, Option.map_some, hb]
  · intro hb
    obtain ⟨v, hv, rfl⟩ := exists_of_block? hb
    exact ⟨v, hv, h.render_variant hv _⟩

theorem Read.not_mem_block {s : Snippet} (h : s.Read) {o : Options} {k : Kind} {b : Text}
    (hb : s.block? o k = some b) : '\r' ∉ b := by
  obtain ⟨v, hv, rfl⟩ := exists_of_block? hb
  obtain ⟨raw, -, rfl⟩ := h.variant k v hv
  exact Variant.shown_no_return h.unbroken raw _

/-- A snippet is calm when the blocks that change their state are. -/
theorem Read.calm_iff {s : Snippet} (h : s.Read) {o : Options} : s.Calm o ↔
    ∀ k v block, s.variant? k = some v → v.live ≠ (activationFor o s).isActive k →
      v.render ((activationFor o s).isActive k) s.indentation = .ok block →
      (markers (variantMarkup s.indentation k block)).length = 2 := by
  constructor
  · intro hc k v b hv _ hb
    exact (length_markers_variantMarkup h.allBlank k b).2.mpr
      (hc k b (h.renders_iff.mp ⟨v, hv, hb⟩))
  · intro hm k b hb
    obtain ⟨v, hv, rfl⟩ := exists_of_block? hb
    by_cases hl : v.live = (activationFor o s).isActive k
    · obtain ⟨raw, hraw, rfl⟩ := h.variant k v hv
      exact quiet_of_same_state h.allBlank hraw hl
    · exact (length_markers_variantMarkup h.allBlank k _).2.mp
        (hm k v _ hv hl (h.render_variant hv _))

/-- A snippet that can be read as its blocks are is calm. -/
theorem Read.calm_of_reread {s : Snippet} (h : s.Read) {o : Options} (h' : (s.reread o).Read) :
    s.Calm o := by
  intro k b hb
  obtain ⟨raw, hraw, he⟩ := h'.variant k (.ofBlock b) (by rw [variant?_reread, hb]; rfl)
  apply quiet_of_plain h.allBlank
  apply plain_of_strip
  rw [← Variant.joinWith_ofBlock (h.not_mem_block hb), he]
  exact plain_joinWith_ofBlock hraw

end Snippet

theorem Document.makesNoMarkers_iff {t : Text} {d : Document} (h : Document.parse t = .ok d)
    {o : Options} : d.MakesNoMarkers o ↔ ∀ s ∈ d.snippets, s.Calm o := by
  have hread := (readable_of_parse h).2.read
  constructor
  · exact fun hm s hs => (hread s hs).calm_iff.mpr (hm s hs)
  · exact fun hc s hs => (hread s hs).calm_iff.mp (hc s hs)

/-- Rendering with the markup gives the text of the pieces. -/
theorem Document.render_eq_written {t : Text} {d : Document} (h : Document.parse t = .ok d)
    {o : Options} (hm : o.mode.keepsMarkup = true) :
    d.render o = .ok (writtenPieces o d.source d.pieces) :=
  renderPieces_eq hm (readable_of_parse h).2

/-- Induction over pieces and what their texts are read as. -/
@[elab_as_elim]
theorem Rewritten.induction {o : Options} {source target : Text}
    {motive : ∀ r r', List.Forall₂ (Rewritten o source target) r r' → Prop}
    (nil : motive [] [] .nil)
    (text : ∀ (span span' : Span) r r' (hp : span'.text target = span.text source)
      (hr : List.Forall₂ (Rewritten o source target) r r'), motive r r' hr →
      motive (.text span :: r) (.text span' :: r') (.cons hp hr))
    (snippet : ∀ s r r' (hr : List.Forall₂ (Rewritten o source target) r r'), motive r r' hr →
      motive (.snippet s :: r) (.snippet (s.reread o) :: r') (.cons rfl hr))
    {pieces pieces' : List Piece}
    (h : List.Forall₂ (Rewritten o source target) pieces pieces') : motive pieces pieces' h := by
  induction h with
  | nil => exact nil
  | @cons p p' r r' hp hr ih =>
    cases p with
    | text span =>
      cases p' with
      | text span' => exact text span span' r r' hp hr ih
      | snippet s' => exact absurd hp id
    | snippet s =>
      cases p' with
      | text span' => exact absurd hp id
      | snippet s' =>
        obtain rfl : s' = s.reread o := hp
        exact snippet s r r' hr ih

theorem Rewritten.filterMap {o : Options} {source target : Text} {pieces pieces' : List Piece}
    (h : List.Forall₂ (Rewritten o source target) pieces pieces') :
    pieces'.filterMap Piece.snippet? = (pieces.filterMap Piece.snippet?).map (Snippet.reread o) := by
  induction h using Rewritten.induction with
  | nil => rfl
  | text span span' r r' _ _ ih => exact ih
  | snippet s r r' _ ih => simpa [Piece.snippet?] using ih

theorem forall_snippets_cons {P : Snippet → Prop} {s : Snippet} {r : List Piece} :
    (∀ x ∈ (.snippet s :: r : List Piece).filterMap Piece.snippet?, P x) ↔
      P s ∧ ∀ x ∈ r.filterMap Piece.snippet?, P x := by
  show (∀ x ∈ s :: r.filterMap Piece.snippet?, P x) ↔ _
  exact List.forall_mem_cons

theorem Rewritten.read_reread {o : Options} {source target gap : Text} {pieces pieces' : List Piece}
    (h : List.Forall₂ (Rewritten o source target) pieces pieces')
    (hr : Readable target gap pieces') :
    ∀ s ∈ pieces.filterMap Piece.snippet?, (s.reread o).Read := by
  intro s hs
  apply hr.read
  rw [Rewritten.filterMap h]
  exact List.mem_map_of_mem hs

/-- Pieces that are read again give the same text if their snippets do. -/
theorem Rewritten.renderPieces_eq {o o' : Options} {source target : Text}
    {pieces pieces' : List Piece} (h : List.Forall₂ (Rewritten o source target) pieces pieces') :
    (∀ s ∈ pieces.filterMap Piece.snippet?, (s.reread o).render o' = s.render o') →
    renderPieces o' target pieces' = renderPieces o' source pieces := by
  induction h using Rewritten.induction with
  | nil => exact fun _ => rfl
  | text span span' r r' hp _ ih =>
    intro hr
    rw [renderPieces, renderPieces, ih hr, Piece.render, Piece.render, hp]
  | snippet s r r' _ ih =>
    intro hr
    rw [forall_snippets_cons] at hr
    rw [renderPieces, renderPieces, ih hr.2, Piece.render, Piece.render, hr.1]

/-! ### When the text is read again -/

theorem Document.length_markers_eq_iff {t : Text} {d : Document} (h : Document.parse t = .ok d)
    (o : Options) : (markers (writtenPieces o d.source d.pieces)).length =
      (d.snippets.map fun s => 2 + 2 * s.presentKinds.length).sum ↔ d.MakesNoMarkers o := by
  have hr := (readable_of_parse h).2
  rw [length_markers_writtenPieces hr, makesNoMarkers_iff h]
  obtain ⟨hiff, -⟩ := sum_map_eq_iff (f := Snippet.markerCount o)
    (g := fun s => 2 + 2 * s.presentKinds.length) fun s hs => (Snippet.markerCount_eq_iff
      (hr.read s hs) o).2
  exact hiff.trans (forall₂_congr fun s hs => (Snippet.markerCount_eq_iff (hr.read s hs) o).1)

/-- **A rendering with markup stays in the format exactly when toggling makes no
marker.** It has two markers for each snippet and each variant, and is read as the
same pieces with each variant as its block, under this condition and no other; it
is then accepted and has as many snippets. -/
theorem render_closed_iff {t : Text} {d : Document} (h : Document.parse t = .ok d) {o : Options}
    (hm : o.mode.keepsMarkup = true) :
    ∃ u, d.render o = .ok u ∧
      ((markers u).length = (d.snippets.map fun s => 2 + 2 * s.presentKinds.length).sum ↔
        d.MakesNoMarkers o) ∧
      ((∃ d', Document.parse u = .ok d' ∧ List.Forall₂ (Rewritten o t u) d.pieces d'.pieces) ↔
        d.MakesNoMarkers o) ∧
      (d.MakesNoMarkers o → ∃ d', Document.parse u = .ok d' ∧
        d'.snippets.length = d.snippets.length) := by
  obtain ⟨rfl, hr⟩ := readable_of_parse h
  have hread : d.MakesNoMarkers o → ∃ d',
      Document.parse (writtenPieces o d.source d.pieces) = .ok d' ∧
        List.Forall₂ (Rewritten o d.source (writtenPieces o d.source d.pieces)) d.pieces
          d'.pieces := by
    intro hq
    obtain ⟨d', hp, hf⟩ := parse_written h ((Document.makesNoMarkers_iff h).mp hq)
    exact ⟨d', hp, (readable_of_parse hp).1 ▸ hf⟩
  refine ⟨_, Document.render_eq_written h hm, Document.length_markers_eq_iff h o,
    ⟨?_, hread⟩, fun hq => ?_⟩
  · rintro ⟨d', hp, hf⟩
    obtain ⟨hsource, hr'⟩ := readable_of_parse hp
    rw [← hsource] at hf
    exact (Document.makesNoMarkers_iff h).mpr fun s hs => (hr.read s hs).calm_of_reread
      (Rewritten.read_reread hf hr' s hs)
  · obtain ⟨d', hp, hf⟩ := hread hq
    refine ⟨d', hp, ?_⟩
    rw [Document.snippets, Rewritten.filterMap hf, List.length_map]
    rfl

/-- A solution that becomes a marker when it is commented out. -/
def bracketed : Text :=
  "//<snippet>\n//<solution>\n<b>\n//</solution>\n//</snippet>".toList

theorem render_closed_iff_bracketed : ∃ d u,
    Document.parse bracketed = .ok d ∧ d.render ⟨.fullStudent, none, false⟩ = .ok u ∧
      ¬ d.MakesNoMarkers ⟨.fullStudent, none, false⟩ ∧
        (markers u).length ≠ (d.snippets.map fun s => 2 + 2 * s.presentKinds.length).sum ∧
          ¬ ∃ d', Document.parse u = .ok d' ∧
            List.Forall₂ (Rewritten ⟨.fullStudent, none, false⟩ bracketed u) d.pieces d'.pieces := by
  let v : Variant := ⟨["<b>".toList], true⟩
  let s : Snippet := ⟨[], none, none, some v, none⟩
  let d : Document := ⟨bracketed, [.snippet s]⟩
  have h : Document.parse bracketed = .ok d := by decide +kernel
  have hq : ¬ d.MakesNoMarkers ⟨.fullStudent, none, false⟩ := by
    intro hq
    have := hq s (List.mem_singleton.mpr rfl) .solution v "//<b>".toList rfl (by decide) rfl
    exact absurd this (by decide +kernel)
  obtain ⟨u, hu, hcount, hread, -⟩ := render_closed_iff h (o := ⟨.fullStudent, none, false⟩) rfl
  exact ⟨d, u, h, hu, hq, mt hcount.mp hq, mt hread.mp hq⟩

/-! ### When a second rendering changes nothing -/

namespace Snippet

theorem activationFor_reread (o o' : Options) (s : Snippet) :
    activationFor o' (s.reread o) = activationFor o' s := by
  have h : (s.reread o).special.isSome = s.special.isSome := by
    simp [reread, block?, variant?]
  unfold activationFor
  rw [h]
  rfl

theorem block?_reread (o o' : Options) (s : Snippet) (k : Kind) :
    (s.reread o).block? o' k = (s.block? o k).map fun b =>
      (Variant.ofBlock b).shown ((activationFor o' s).isActive k) s.indentation := by
  rw [block?, variant?_reread, activationFor_reread, Option.map_map]
  rfl

theorem blocks_reread (o : Options) (s : Snippet) : (s.reread o).blocks o =
    (s.blocks o).map fun p => (p.1,
      (Variant.ofBlock p.2).shown ((activationFor o s).isActive p.1) s.indentation) := by
  rw [blocks, blocks, List.map_filterMap]
  congr 1
  funext k
  rw [block?_reread, Option.map_map, Option.map_map]
  rfl

/-- Writing blocks that are not longer gives a text that is not longer, and as long
only if every block is. -/
theorem length_inner_le (indentation : Text) {f : Kind × Text → Text} :
    ∀ {blocks : List (Kind × Text)}, (∀ p ∈ blocks, (f p).length ≤ p.2.length) →
    (inner indentation (blocks.map fun p => (p.1, f p))).length ≤
        (inner indentation blocks).length ∧
      ((inner indentation (blocks.map fun p => (p.1, f p))).length =
        (inner indentation blocks).length → ∀ p ∈ blocks, (f p).length = p.2.length)
  | [], _ => by simp
  | p :: blocks, h => by
    obtain ⟨hle, heq⟩ := length_inner_le indentation fun q hq => h q (List.mem_cons_of_mem p hq)
    have hp := h p (List.mem_cons_self ..)
    simp only [List.map_cons, inner, List.length_append, List.forall_mem_cons]
    refine ⟨by omega, fun he => ⟨by omega, heq (by omega)⟩⟩

/-- All blocks of a rendering are steady. -/
def Settled (o : Options) (s : Snippet) : Prop :=
  ∀ k b, s.block? o k = some b → Variant.Steady ((activationFor o s).isActive k) b

theorem Read.length_written_reread {s : Snippet} (h : s.Read) (o : Options) :
    ((s.reread o).written o).length ≤ (s.written o).length ∧
      (((s.reread o).written o).length = (s.written o).length → s.Settled o) := by
  have hle : ∀ p ∈ s.blocks o, ((Variant.ofBlock p.2).shown ((activationFor o s).isActive p.1)
      s.indentation).length ≤ p.2.length := fun p hp =>
    Variant.length_shown_ofBlock_le (h.not_mem_block (mem_blocks_iff.mp hp))
      (h.live_ofBlock (mem_blocks_iff.mp hp)) _
  obtain ⟨h1, h2⟩ := length_inner_le s.indentation hle
  rw [← blocks_reread] at h1 h2
  have hi : (s.reread o).indentation = s.indentation := rfl
  have ht : (s.reread o).task = s.task := rfl
  simp only [written, List.length_append, hi, ht]
  refine ⟨by omega, fun he k b hb => ?_⟩
  exact Variant.steady_of_length (h.not_mem_block hb) (h.live_ofBlock hb)
    (h2 (by omega) (k, b) (mem_blocks_iff.mpr hb))

theorem Read.written_reread {s : Snippet} (h : s.Read) {o : Options} (hs : s.Settled o) :
    (s.reread o).written o = s.written o := by
  have hb : (s.reread o).blocks o = s.blocks o := by
    rw [blocks_reread]
    refine (List.map_congr_left fun p hp => ?_).trans (List.map_id _)
    have hp := mem_blocks_iff.mp hp
    rw [Variant.shown_of_steady (h.not_mem_block hp) (h.live_ofBlock hp) (hs p.1 p.2 hp)]
    rfl
  have hi : (s.reread o).indentation = s.indentation := rfl
  have ht : (s.reread o).task = s.task := rfl
  rw [written, written, hb, hi, ht]

/-- Only the active block can fail to be steady. -/
theorem Read.settled_iff {s : Snippet} (h : s.Read) {o : Options} : s.Settled o ↔
    ∀ block, s.Renders o (activationFor o s).kind block →
      block.strip = block ∧ (block = [] ∨ block.lines.any isLive = true) := by
  constructor
  · intro hs b hb
    have hst := hs _ b (h.renders_iff.mp hb)
    exact ⟨hst.1, hst.2 (by simp [Activation.isActive])⟩
  · intro hs k b hb
    cases hk : (activationFor o s).isActive k with
    | false =>
      refine ⟨?_, by simp⟩
      obtain ⟨v, hv, rfl⟩ := exists_of_block? hb
      obtain ⟨raw, -, rfl⟩ := h.variant k v hv
      rw [hk]
      exact Variant.strip_shown_false raw s.indentation
    | true =>
      obtain rfl : k = (activationFor o s).kind := by simpa [Activation.isActive] using hk
      have hst := hs b (h.renders_iff.mpr hb)
      exact ⟨hst.1, fun _ => hst.2⟩

end Snippet

/-- A text that is read again and rendered again is not longer, and as long only if
every snippet is settled. -/
theorem length_writtenPieces_le {o : Options} {source target : Text} {pieces pieces' : List Piece}
    (h : List.Forall₂ (Rewritten o source target) pieces pieces') :
    (∀ s ∈ pieces.filterMap Piece.snippet?, s.Read) →
    (writtenPieces o target pieces').length ≤ (writtenPieces o source pieces).length ∧
      ((writtenPieces o target pieces').length = (writtenPieces o source pieces).length →
        ∀ s ∈ pieces.filterMap Piece.snippet?, s.Settled o) := by
  induction h using Rewritten.induction with
  | nil => simp [writtenPieces]
  | text span span' r r' hp _ ih =>
    intro hr
    obtain ⟨hle, heq⟩ := ih hr
    simp only [writtenPieces_cons, List.length_append]
    rw [Piece.written, Piece.written, hp]
    exact ⟨by omega, fun he => heq (by omega)⟩
  | snippet s r r' _ ih =>
    intro hr
    rw [forall_snippets_cons] at hr ⊢
    obtain ⟨hle, heq⟩ := ih hr.2
    obtain ⟨hle', heq'⟩ := hr.1.length_written_reread o
    simp only [writtenPieces_cons, List.length_append]
    rw [Piece.written, Piece.written]
    exact ⟨by omega, fun he => ⟨heq' (by omega), heq (by omega)⟩⟩

/-- **Rendering a second time gives the same text exactly when every active block is
trimmed, and is empty or has a live line.** -/
theorem render_again_iff {t : Text} {d : Document} (h : Document.parse t = .ok d) {o : Options}
    (hm : o.mode.keepsMarkup = true) (hq : d.MakesNoMarkers o) :
    ∃ u d', d.render o = .ok u ∧ Document.parse u = .ok d' ∧
      (d'.render o = .ok u ↔ ∀ s ∈ d.snippets, ∀ block,
        s.Renders o (activationFor o s).kind block →
          block.strip = block ∧ (block = [] ∨ block.lines.any isLive = true)) := by
  have hread := (readable_of_parse h).2.read
  obtain ⟨d', hp, hf⟩ := parse_written h ((Document.makesNoMarkers_iff h).mp hq)
  have hread' := Rewritten.read_reread hf (readable_of_parse hp).2
  refine ⟨_, d', Document.render_eq_written h hm, hp, ?_⟩
  constructor
  · intro he s hs
    rw [Document.render_eq_written hp hm, Except.ok.injEq] at he
    have hset := (length_writtenPieces_le hf hread).2 (congrArg List.length he)
    exact (hread s hs).settled_iff.mp (hset s hs)
  · intro hs
    rw [← Document.render_eq_written h hm]
    refine Rewritten.renderPieces_eq hf fun s hm' => ?_
    rw [Snippet.render_eq_written (hread' s hm') hm, Snippet.render_eq_written (hread s hm') hm,
      (hread s hm').written_reread ((hread s hm').settled_iff.mpr (hs s hm'))]

/-- A comment mark with a space behind it, which is left over. -/
def spacedCall : Text :=
  "//<snippet>\n//<student>\n// a();\n//</student>\n//</snippet>".toList

theorem render_again_iff_spacedCall : ∃ d u d',
    Document.parse spacedCall = .ok d ∧ d.MakesNoMarkers ⟨.fullStudent, none, false⟩ ∧
      d.render ⟨.fullStudent, none, false⟩ = .ok u ∧ Document.parse u = .ok d' ∧
        d'.render ⟨.fullStudent, none, false⟩ ≠ .ok u := by
  let s : Snippet := ⟨[], none, some ⟨["// a();".toList], false⟩, none, none⟩
  let d : Document := ⟨spacedCall, [.snippet s]⟩
  have h : Document.parse spacedCall = .ok d := by decide +kernel
  have hq : d.MakesNoMarkers ⟨.fullStudent, none, false⟩ := by
    intro s' hs k v b hv _ hb
    obtain rfl : s' = s := List.mem_singleton.mp hs
    cases k with
    | student => cases hv; cases hb; decide +kernel
    | solution => cases hv
    | special => cases hv
  obtain ⟨u, d', hu, hp, hiff⟩ := render_again_iff h rfl hq
  refine ⟨d, u, d', h, hq, hu, hp, fun he => ?_⟩
  have := hiff.mp he s (List.mem_singleton.mpr rfl) " a();".toList ⟨_, rfl, rfl⟩
  exact absurd this.1 (by decide)

/-! ### Reading undoes rendering -/

/-- The mode that extracts what a mode makes live. -/
def Mode.extracting : Mode → Mode
  | .solution | .fullSolution => .solution
  | .student | .fullStudent => .student

/-- The options that extract what a rendering makes live. -/
def Options.extracting (o : Options) : Options :=
  { o with mode := o.mode.extracting }

/-- A snippet and the one that its text is read as: each variant holds the lines of
its block, and only the active one may be live. -/
structure Snippet.ReadAs (o : Options) (s s' : Snippet) : Prop where
  indentation : s'.indentation = s.indentation
  task : s'.task = s.task
  presentKinds : s'.presentKinds = s.presentKinds
  lines : ∀ k v', s'.variant? k = some v' → ∃ block, s.Renders o k block ∧
    v'.lines = if block = [] then [] else block.lines
  inactive : ∀ k v', s'.variant? k = some v' → (activationFor o s).isActive k = false →
    v'.lines.any isLive = false

/-- A piece and the one that its text is read as. -/
def Piece.ReadAs (o : Options) (source target : Text) : Piece → Piece → Prop
  | .text span, .text span' => span'.text target = span.text source
  | .snippet s, .snippet s' => s.ReadAs o s'
  | _, _ => False

theorem Rewritten.readAs {o : Options} {source target : Text} {pieces pieces' : List Piece}
    (h : List.Forall₂ (Rewritten o source target) pieces pieces') :
    (∀ s ∈ pieces.filterMap Piece.snippet?, s.ReadAs o (s.reread o)) →
    List.Forall₂ (Piece.ReadAs o source target) pieces pieces' := by
  induction h using Rewritten.induction with
  | nil => exact fun _ => .nil
  | text span span' r r' hp _ ih => exact fun hr => .cons hp (ih hr)
  | snippet s r r' _ ih =>
    intro hr
    rw [forall_snippets_cons] at hr
    exact .cons hr.1 (ih hr.2)

namespace Snippet

theorem presentKinds_reread (o : Options) (s : Snippet) :
    (s.reread o).presentKinds = s.presentKinds := by
  unfold presentKinds
  congr 1
  funext k
  rw [variant?_reread]
  simp [block?]

/-- A snippet whose blocks are trimmed is read as it was rendered. -/
theorem Read.readAs {s : Snippet} (h : s.Read) {o : Options}
    (ht : ∀ k block, s.Renders o k block → block.strip = block) : s.ReadAs o (s.reread o) := by
  refine ⟨rfl, rfl, presentKinds_reread o s, fun k v' hv => ?_, fun k v' hv hk => ?_⟩
  · rw [variant?_reread, Option.map_eq_some_iff] at hv
    obtain ⟨b, hb, rfl⟩ := hv
    have hb := h.renders_iff.mpr hb
    refine ⟨b, hb, ?_⟩
    rw [Variant.ofBlock_eq, ht k b hb]
    rfl
  · rw [variant?_reread, Option.map_eq_some_iff] at hv
    obtain ⟨b, hb, rfl⟩ := hv
    rw [← Variant.live_ofBlock]
    exact h.live_ofBlock hb hk

theorem activationFor_extracting (o : Options) (s : Snippet) :
    activationFor o.extracting s = activationFor o s := by
  have h : o.extracting.mode.wantsSolution = o.mode.wantsSolution := by
    obtain ⟨mode, cutoff, prefer⟩ := o
    cases mode <;> rfl
  unfold activationFor
  rw [h]
  rfl

theorem keepsMarkup_extracting (o : Options) : o.extracting.mode.keepsMarkup = false := by
  obtain ⟨mode, cutoff, prefer⟩ := o
  cases mode <;> rfl

/-- Extraction gives the active block. -/
theorem Read.render_extracting {s : Snippet} (h : s.Read) (o : Options) :
    s.render o.extracting = .ok ((s.block? o (activationFor o s).kind).getD []) := by
  unfold render
  rw [if_neg (by simp [keepsMarkup_extracting]), activationFor_extracting]
  cases hv : s.variant? (activationFor o s).kind with
  | none => simp [block?, hv]
  | some v =>
    simp only [h.render_variant hv]
    simp [block?, hv, Activation.isActive]

/-- A settled snippet is extracted as before when it is read again. -/
theorem Read.render_extracting_reread {s : Snippet} (h : s.Read) {o : Options}
    (h' : (s.reread o).Read) (hs : s.Settled o) :
    (s.reread o).render o.extracting = s.render o.extracting := by
  rw [h.render_extracting, h'.render_extracting, activationFor_reread, block?_reread]
  cases hb : s.block? o (activationFor o s).kind with
  | none => rfl
  | some b =>
    rw [Option.map_some, Variant.shown_of_steady (h.not_mem_block hb) (h.live_ofBlock hb)
      (hs _ b hb)]

end Snippet

theorem renderPieces_extracting (o : Options) (source : Text) : ∀ pieces : List Piece,
    (∀ s ∈ pieces.filterMap Piece.snippet?, s.Read) →
    ∃ w, renderPieces o.extracting source pieces = .ok w
  | [], _ => ⟨[], rfl⟩
  | .text span :: r, hr => by
    obtain ⟨w, hw⟩ := renderPieces_extracting o source r hr
    exact ⟨span.text source ++ w, by rw [renderPieces, hw]; rfl⟩
  | .snippet s :: r, hr => by
    rw [forall_snippets_cons] at hr
    obtain ⟨w, hw⟩ := renderPieces_extracting o source r hr.2
    exact ⟨_, by rw [renderPieces, hw, Piece.render, hr.1.render_extracting]; rfl⟩

/-- **Reading undoes rendering** when the rendered blocks are trimmed and free of
`//<`: the text is accepted and read as the same pieces, and if moreover each active
block is empty or has a live line, extraction gives the same text as before. -/
theorem parse_render {t : Text} {d : Document} (h : Document.parse t = .ok d) {o : Options}
    (hm : o.mode.keepsMarkup = true)
    (hmark : ∀ s ∈ d.snippets, ∀ k block, s.Renders o k block → ¬ ['/', '/', '<'] <:+: block)
    (htrim : ∀ s ∈ d.snippets, ∀ k block, s.Renders o k block → block.strip = block) :
    ∃ u d', d.render o = .ok u ∧ Document.parse u = .ok d' ∧
      List.Forall₂ (Piece.ReadAs o t u) d.pieces d'.pieces ∧
      ((∀ s ∈ d.snippets, ∀ block, s.Renders o (activationFor o s).kind block → block ≠ [] →
          block.lines.any isLive = true) →
        ∃ w, d.render o.extracting = .ok w ∧ d'.render o.extracting = .ok w) := by
  obtain ⟨rfl, hr⟩ := readable_of_parse h
  have hcalm : ∀ s ∈ d.snippets, s.Calm o := fun s hs k b hb => quiet_of_plain
    (hr.read s hs).allBlank (plain_of_no_mark (hmark s hs k b ((hr.read s hs).renders_iff.mpr hb)))
  obtain ⟨d', hp, hf⟩ := parse_written h hcalm
  obtain ⟨hsource, hr'⟩ := readable_of_parse hp
  refine ⟨_, d', Document.render_eq_written h hm, hp, ?_, fun hlive => ?_⟩
  · rw [← hsource]
    exact Rewritten.readAs hf fun s hs => (hr.read s hs).readAs (htrim s hs)
  · obtain ⟨w, hw⟩ := renderPieces_extracting o d.source d.pieces hr.read
    refine ⟨w, hw, (Rewritten.renderPieces_eq hf fun s hs => ?_).trans hw⟩
    refine (hr.read s hs).render_extracting_reread (Rewritten.read_reread hf hr' s hs) ?_
    refine (hr.read s hs).settled_iff.mpr fun b hb => ⟨htrim s hs _ b hb, ?_⟩
    exact (em (b = [])).imp id (hlive s hs b hb)

/-- A text before and after a snippet with a task and two variants, one of them
commented out. -/
def exercise : Text :=
  ("f\n  //<snippet task=\"1.2\">\n  //<student>\n  a;\n  //</student>\n".toList
    ++ "  //<solution>\n  //b;\n  //</solution>\n  //</snippet>\n".toList)

theorem parse_render_exercise : ∃ d u d',
    Document.parse exercise = .ok d ∧ d.snippets.length = 1 ∧
      d.render ⟨.fullSolution, none, false⟩ = .ok u ∧ Document.parse u = .ok d' ∧
        List.Forall₂ (Piece.ReadAs ⟨.fullSolution, none, false⟩ exercise u) d.pieces d'.pieces ∧
          d.render ⟨.solution, none, false⟩ = d'.render ⟨.solution, none, false⟩ := by
  let s : Snippet := ⟨[' ', ' '], some (.two 1 2), some ⟨["a;".toList], true⟩,
    some ⟨["//b;".toList], false⟩, none⟩
  let d : Document := ⟨exercise, [.text ⟨0, 4⟩, .snippet s, .text ⟨113, 1⟩]⟩
  have h : Document.parse exercise = .ok d := by decide +kernel
  have hblocks : ∀ s' ∈ d.snippets, ∀ k b, s'.Renders ⟨.fullSolution, none, false⟩ k b →
      b = "//a;".toList ∨ b = "b;".toList := by
    rintro s' hs k b ⟨v, hv, hb⟩
    obtain rfl : s' = s := List.mem_singleton.mp hs
    cases k with
    | student => cases hv; cases hb; exact .inl rfl
    | solution => cases hv; cases hb; exact .inr rfl
    | special => cases hv
  obtain ⟨u, d', hu, hp, hf, hex⟩ := parse_render h (o := ⟨.fullSolution, none, false⟩) rfl
    (fun s' hs k b hb => by rcases hblocks s' hs k b hb with rfl | rfl <;> decide)
    (fun s' hs k b hb => by rcases hblocks s' hs k b hb with rfl | rfl <;> decide)
  refine ⟨d, u, d', h, rfl, hu, hp, hf, ?_⟩
  obtain ⟨w, hw, hw'⟩ := hex (by
    rintro s' hs b ⟨v, hv, hb⟩ -
    obtain rfl : s' = s := List.mem_singleton.mp hs
    cases hv
    cases hb
    decide)
  exact hw.trans hw'.symm

end Handout
