/-
# Switching to another variant and back

A text is rendered with its markup for one variant, then for another, and then for the
first again. Each switch comments one block out and takes the comment marks of another.
Taking the marks of a live block that was commented out gives it back line by line
(`bareLine_commentLine`); the other way round it does not, because a block is trimmed
when it is read and a mark is put in the column of the snippet, wherever it stood.

A block is followed through the three renderings for each state that it can be wanted
in (`Variant.shown_back_of_active`, `Variant.shown_back_of_inactive`,
`Variant.shown_back_iff`, and for the blocks of a snippet `Snippet.Read.comesBack_iff`).
For the whole text it has to be known that equal texts have equal blocks: a block without
markers ends where the next marker begins (`Silent.append_injective`), so a written
snippet determines its blocks and its own end (`Snippet.written_append_injective`). Going
there and back therefore restores the text exactly when every snippet comes back
(`render_back_iff`).

Key definitions: `Snippet.ComesBack`, `spelledPieces`.
Key theorems: `Variant.shown_back_iff`, `Snippet.Read.comesBack_iff`,
`Snippet.written_append_injective`, `forall_of_spelledPieces_eq`, `render_back_iff`.
-/
import Handout.Proofs.RoundTrip

namespace Handout

open Marker

/-! ### One block there and back -/

theorem leading_append_mark {w : Text} (hw : AllBlank w) (t : Text) :
    leading (w ++ (commentMark ++ t)) = w := by
  have h : isBlank '/' = false := by decide
  rw [leading, List.takeWhile_append_of_pos hw]
  simp [commentMark, h]

theorem bareLine_append_mark {w : Text} (hw : AllBlank w) (t : Text) :
    bareLine (w ++ (commentMark ++ t)) = w ++ t := by
  have hc : content (w ++ (commentMark ++ t)) = commentMark ++ t := by
    rw [content_append_blank hw, commentMark_content]
  rw [bareLine, hc, leading_append_mark hw, List.drop_left, if_neg (by simp [commentMark])]

/-- Taking the mark from a line that was commented out gives the line. -/
theorem bareLine_commentLine {indentation : Text} (hi : AllBlank indentation) (line : Text) :
    bareLine (commentLine indentation line) = line := by
  unfold commentLine
  split_ifs with h0 hp
  · rw [bareLine, if_pos h0]
  · obtain ⟨r, hr⟩ := List.isPrefixOf_iff_prefix.mp hp
    rw [← hr, List.drop_left, List.append_assoc, List.append_assoc, bareLine_append_mark hi,
      ← List.append_assoc, hr, leading_append_content]
  · rw [List.append_assoc, bareLine_append_mark (leading_allBlank line), leading_append_content]

namespace Variant

/-- Trimmed lines that are joined are read as they are. -/
theorem ofBlock_joinWith {ls : List Text} (hu : ∀ l ∈ ls, Unbroken l) (ht : TrimmedLines ls) :
    ofBlock (Text.joinWith ['\n'] ls) = ofLines ls := by
  rw [ofBlock_eq, Text.strip_joinWith ht]
  cases ls with
  | nil => rfl
  | cons l r =>
    obtain ⟨c, hc, -⟩ := ht.1 l rfl
    have h0 : Text.joinWith ['\n'] (l :: r) ≠ [] := by
      intro h0
      have := Text.head?_joinWith_cons hc ['\n'] r
      rw [h0] at this
      cases this
    rw [if_neg h0, Text.lines_joinWith (List.cons_ne_nil l r) hu]

theorem ofLines_ofBlock (block : Text) : ofLines (ofBlock block).lines = ofBlock block := by
  rw [ofBlock_eq]
  rfl

theorem ofBlock_strip (block : Text) : ofBlock block.strip = ofBlock block := by
  obtain ⟨w, v, hw, hv, hb⟩ := Text.exists_strip block
  conv_rhs => rw [hb]
  rw [ofBlock_around hw hv]

theorem shownLines_false_of_live {v : Variant} (hl : v.live = true) (indentation : Text) :
    v.shownLines false indentation = v.lines.map (commentLine indentation) := by
  simp [shownLines, hl]

theorem shownLines_true_of_not_live {v : Variant} (hl : v.live = false) (indentation : Text) :
    v.shownLines true indentation = v.lines.map bareLine := by
  simp [shownLines, hl]

/-- A live block that was commented out is read line for line. -/
theorem ofBlock_shown_false {indentation : Text} (hu : Unbroken indentation) {block : Text}
    (hl : (ofBlock block).live = true) : ofBlock ((ofBlock block).shown false indentation) =
      ofLines ((ofBlock block).lines.map (commentLine indentation)) := by
  have hlines := shownLines_false_of_live hl indentation
  rw [shown, hlines]
  exact ofBlock_joinWith (hlines ▸ shownLines_unbroken hu block false)
    ((ofBlock_trimmed block).map_commentLine indentation)

/-- A live block that was commented out and is made live again has its lines. -/
theorem shown_true_shown_false {indentation indentation' : Text} (hu : Unbroken indentation)
    (hi : AllBlank indentation) {block : Text} (hl : (ofBlock block).live = true) :
    (ofBlock ((ofBlock block).shown false indentation)).shown true indentation' =
      Text.joinWith ['\n'] (ofBlock block).lines := by
  have hread := ofBlock_shown_false hu hl
  have hdead := live_ofBlock_shown_false hu hi block
  rw [hread] at hdead ⊢
  rw [shown, shownLines_true_of_not_live hdead]
  simp [ofLines, Function.comp_def, bareLine_commentLine hi]

theorem shown_eq_iff_steady {block : Text} (h : '\r' ∉ block) (indentation : Text) :
    (ofBlock block).shown true indentation = block ↔ Steady true block :=
  ⟨fun he => steady_of_length h (by simp) (congrArg List.length he),
    fun hs => shown_of_steady h (by simp) hs indentation⟩

/-- A block that should be live comes back, whatever it should be in between, exactly
when it is steady. -/
theorem shown_back_of_active {indentation block : Text} (hu : Unbroken indentation)
    (hi : AllBlank indentation) (h : '\r' ∉ block) (wantLive : Bool) :
    (ofBlock ((ofBlock block).shown wantLive indentation)).shown true indentation = block ↔
      Steady true block := by
  have hr := shown_no_return hu block wantLive
  cases wantLive with
  | true =>
    constructor
    · -- Neither step makes the block longer, so the first one keeps its length.
      intro he
      have h1 : ((ofBlock block).shown true indentation).length ≤ block.length :=
        length_shown_ofBlock_le h (by simp) indentation
      have h2 : ((ofBlock ((ofBlock block).shown true indentation)).shown true
          indentation).length ≤ ((ofBlock block).shown true indentation).length :=
        length_shown_ofBlock_le hr (by simp) indentation
      rw [he] at h2
      exact steady_of_length h (by simp) (Nat.le_antisymm h1 h2)
    · intro hs
      rw [shown_of_steady h (by simp) hs, shown_of_steady h (by simp) hs]
  | false =>
    cases hl : (ofBlock block).live with
    | true =>
      rw [shown_true_shown_false hu hi hl, joinWith_ofBlock h]
      refine ⟨fun hs => ⟨hs, fun _ => .inr ?_⟩, And.left⟩
      rw [live_ofBlock_of_strip hs, Bool.and_eq_true] at hl
      exact hl.2
    | false => rw [shown_ofBlock h hl, ofBlock_strip, shown_eq_iff_steady h]

/-- A block that stays commented out comes back. -/
theorem shown_back_of_inactive {indentation : Text} (hu : Unbroken indentation)
    (hi : AllBlank indentation) (raw : Text) {block : Text}
    (hb : block = (ofBlock raw).shown false indentation) :
    (ofBlock ((ofBlock block).shown false indentation)).shown false indentation = block := by
  have hr : '\r' ∉ block := hb ▸ shown_no_return hu raw false
  have hs : Steady false block := ⟨hb ▸ strip_shown_false raw indentation, by simp⟩
  have hl : (ofBlock block).live = false := hb ▸ live_ofBlock_shown_false hu hi raw
  rw [shown_of_steady hr (fun _ => hl) hs, shown_of_steady hr (fun _ => hl) hs]

/-- **A commented block that is made live and commented out again comes back exactly
when it is empty or a live block commented out.** -/
theorem shown_back_iff {indentation : Text} (hu : Unbroken indentation)
    (hi : AllBlank indentation) (raw : Text) {block : Text}
    (hb : block = (ofBlock raw).shown false indentation) :
    (ofBlock ((ofBlock block).shown true indentation)).shown false indentation = block ↔
      block = [] ∨ ∃ a, (ofBlock a).live = true ∧ (ofBlock a).shown false indentation = block := by
  have hr : '\r' ∉ block := hb ▸ shown_no_return hu raw false
  have hstrip : block.strip = block := hb ▸ strip_shown_false raw indentation
  have hdead : (ofBlock block).live = false := hb ▸ live_ofBlock_shown_false hu hi raw
  constructor
  · intro he
    refine or_iff_not_imp_left.mpr fun h0 => ⟨_, ?_, he⟩
    -- Without a live line the marks would be lost for good, and the block would be shorter.
    by_contra hl
    have hr' := shown_no_return hu block true
    rw [shown_ofBlock hr' (by simpa using hl)] at he
    have hlt := length_bareLines_lt (by rwa [hstrip]) hr
    have hle := Text.length_strip_le ((ofBlock block).shown true indentation)
    rw [he, shown, shownLines_true_of_not_live hdead] at hle
    rw [hstrip] at hlt
    omega
  · rintro (rfl | ⟨a, hl, rfl⟩)
    · rfl
    · rw [shown_true_shown_false hu hi hl,
        ofBlock_joinWith (ofBlock_unbroken a) (ofBlock_trimmed a), ofLines_ofBlock]

end Variant

/-! ### A snippet there and back -/

theorem Activation.isActive_kind (a : Activation) : a.isActive a.kind = true := by
  simp [isActive]

theorem Activation.isActive_of_ne {a : Activation} {k : Kind} (h : k ≠ a.kind) :
    a.isActive k = false := by
  simpa [isActive] using h

namespace Snippet

/-- What a snippet rendered for `o` needs to be restored when it is rendered for `o'` and
then for `o` again. -/
structure ComesBack (o o' : Options) (s : Snippet) : Prop where
  /-- The block that `o` shows is trimmed, and is empty or has a live line. -/
  active : ∀ block, s.Renders o (activationFor o s).kind block →
    block.strip = block ∧ (block = [] ∨ block.lines.any isLive = true)
  /-- The block that `o'` shows instead is empty or a live block commented out. -/
  instead : (activationFor o' s).kind ≠ (activationFor o s).kind →
    ∀ block, s.Renders o (activationFor o' s).kind block → block = [] ∨
      ∃ a, (Variant.ofBlock a).live = true ∧
        (Variant.ofBlock a).render false s.indentation = .ok block

theorem blocks_eq_iff {o : Options} {s s' : Snippet} :
    s'.blocks o = s.blocks o ↔ ∀ k, s'.block? o k = s.block? o k := by
  constructor
  · intro h k
    rw [← lookup_blocks, h, lookup_blocks]
  · intro h
    rw [blocks, blocks]
    congr 1
    funext k
    rw [h k]

/-- A block of a rendering after two more renderings. -/
def back (o o' : Options) (s : Snippet) (k : Kind) (block : Text) : Text :=
  (Variant.ofBlock ((Variant.ofBlock block).shown ((activationFor o' s).isActive k)
    s.indentation)).shown ((activationFor o s).isActive k) s.indentation

/-- The blocks of a snippet are restored if each block is. -/
theorem blocks_reread_reread_iff (o o' : Options) (s : Snippet) :
    ((s.reread o).reread o').blocks o = s.blocks o ↔
      ∀ k block, s.block? o k = some block → s.back o o' k block = block := by
  rw [blocks_eq_iff]
  refine forall_congr' fun k => ?_
  have hback : ((s.reread o).reread o').block? o k = (s.block? o k).map (s.back o o' k) := by
    rw [block?_reread, block?_reread, activationFor_reread, Option.map_map]
    rfl
  rw [hback]
  cases s.block? o k with
  | none => simp
  | some b => simp

/-- The block that is shown comes back exactly when it is steady. -/
theorem Read.back_active_iff {s : Snippet} (h : s.Read) {o : Options} (o' : Options) {block : Text}
    (hb : s.block? o (activationFor o s).kind = some block) :
    s.back o o' (activationFor o s).kind block = block ↔
      block.strip = block ∧ (block = [] ∨ block.lines.any isLive = true) := by
  rw [back, Activation.isActive_kind,
    Variant.shown_back_of_active h.unbroken h.allBlank (h.not_mem_block hb)]
  exact and_congr_right fun _ => ⟨fun hl => hl rfl, fun hl _ => hl⟩

/-- A block that is not shown is a variant commented out. -/
theorem Read.exists_of_inactive {s : Snippet} (h : s.Read) {o : Options} {k : Kind}
    (hk : k ≠ (activationFor o s).kind) {block : Text} (hb : s.block? o k = some block) :
    ∃ raw, block = (Variant.ofBlock raw).shown false s.indentation := by
  obtain ⟨v, hv, rfl⟩ := exists_of_block? hb
  obtain ⟨raw, -, rfl⟩ := h.variant k v hv
  rw [Activation.isActive_of_ne hk]
  exact ⟨raw, rfl⟩

/-- The block that is shown in between comes back exactly when it is empty or a live
block commented out. -/
theorem Read.back_instead_iff {s : Snippet} (h : s.Read) {o o' : Options}
    (hne : (activationFor o' s).kind ≠ (activationFor o s).kind) {block : Text}
    (hb : s.block? o (activationFor o' s).kind = some block) :
    s.back o o' (activationFor o' s).kind block = block ↔ block = [] ∨
      ∃ a, (Variant.ofBlock a).live = true ∧
        (Variant.ofBlock a).render false s.indentation = .ok block := by
  obtain ⟨raw, hraw⟩ := h.exists_of_inactive hne hb
  simp only [Variant.render_ofBlock, Except.ok.injEq]
  rw [back, Activation.isActive_kind, Activation.isActive_of_ne hne]
  exact Variant.shown_back_iff h.unbroken h.allBlank raw hraw

/-- A block that is never shown comes back. -/
theorem Read.back_hidden {s : Snippet} (h : s.Read) {o o' : Options} {k : Kind}
    (hk : k ≠ (activationFor o s).kind) (hk' : k ≠ (activationFor o' s).kind) {block : Text}
    (hb : s.block? o k = some block) : s.back o o' k block = block := by
  obtain ⟨raw, hraw⟩ := h.exists_of_inactive hk hb
  rw [back, Activation.isActive_of_ne hk, Activation.isActive_of_ne hk']
  exact Variant.shown_back_of_inactive h.unbroken h.allBlank raw hraw

/-- **A snippet comes back exactly when its blocks are restored.** -/
theorem Read.comesBack_iff {s : Snippet} (h : s.Read) (o o' : Options) :
    s.ComesBack o o' ↔ ((s.reread o).reread o').blocks o = s.blocks o := by
  rw [blocks_reread_reread_iff]
  constructor
  · intro hs k b hb
    by_cases hk : k = (activationFor o s).kind
    · subst hk
      exact (h.back_active_iff o' hb).mpr (hs.active b (h.renders_iff.mpr hb))
    · by_cases hk' : k = (activationFor o' s).kind
      · subst hk'
        exact (h.back_instead_iff hk hb).mpr (hs.instead hk b (h.renders_iff.mpr hb))
      · exact h.back_hidden hk hk' hb
  · intro hs
    refine ⟨fun b hb => ?_, fun hne b hb => ?_⟩
    · have hb := h.renders_iff.mp hb
      exact (h.back_active_iff o' hb).mp (hs _ b hb)
    · have hb := h.renders_iff.mp hb
      exact (h.back_instead_iff hne hb).mp (hs _ b hb)

end Snippet

/-! ### A written text determines its blocks -/

/-- A text without markers ends where the next marker begins. -/
theorem Silent.append_injective {x y x' y' : Text} (hx : Silent x y) (hx' : Silent x' y')
    (hy : marksAt y = true) (hy' : marksAt y' = true) (h : x ++ y = x' ++ y') :
    x = x' ∧ y = y' := by
  have hnil : ∀ {a u v : Text}, Silent (u ++ a) v → marksAt (a ++ v) = true → a = [] := by
    intro a u v hs hm
    by_contra h0
    rw [hs a (List.suffix_append u a) h0] at hm
    cases hm
  rcases List.append_eq_append_iff.mp h with ⟨a, rfl, rfl⟩ | ⟨a, rfl, rfl⟩
  · obtain rfl := hnil hx' hy
    simp
  · obtain rfl := hnil hx hy'
    simp

namespace Snippet

theorem inner_cons_append (indentation : Text) (k : Kind) (b : Text) (r : List (Kind × Text))
    (next : Text) : inner indentation ((k, b) :: r) ++ next =
      startLine indentation ++ (openingText k.name [] ++
        ((startLine indentation ++ b ++ startLine indentation) ++
          (closingText k.name ++ (inner indentation r ++ next)))) := by
  simp only [inner, List.append_assoc]

/-- Quiet blocks between their markers can be told from the text, and so can its end. -/
theorem inner_append_injective {indentation next next' : Text} :
    ∀ {blocks blocks' : List (Kind × Text)}, blocks.map Prod.fst = blocks'.map Prod.fst →
    (∀ p ∈ blocks, Quiet indentation p.2) → (∀ p ∈ blocks', Quiet indentation p.2) →
    inner indentation blocks ++ next = inner indentation blocks' ++ next' →
    blocks = blocks' ∧ next = next'
  | [], [], _, _, _, h => ⟨rfl, List.append_cancel_left h⟩
  | [], _ :: _, hk, _, _, _ => by simp at hk
  | _ :: _, [], hk, _, _, _ => by simp at hk
  | (k, b) :: r, (k', b') :: r', hk, hq, hq', h => by
    simp only [List.map_cons, List.cons.injEq] at hk
    obtain ⟨rfl, hk⟩ := hk
    rw [List.forall_mem_cons] at hq hq'
    rw [inner_cons_append, inner_cons_append] at h
    have hmark : ∀ rest, marksAt (closingText k.name ++ rest) = true :=
      marksAt_closingText k.isName
    obtain ⟨hb, hrest⟩ := Silent.append_injective (hq.1.silent (breaks_of_marksAt (hmark _)))
      (hq'.1.silent (breaks_of_marksAt (hmark _))) (hmark _) (hmark _)
      (List.append_cancel_left (List.append_cancel_left h))
    obtain rfl : b = b' := List.append_cancel_left (List.append_cancel_right hb)
    obtain ⟨rfl, hnext⟩ := inner_append_injective hk hq.2 hq'.2 (List.append_cancel_left hrest)
    exact ⟨rfl, hnext⟩

/-- **A written snippet determines its blocks and where it ends.** -/
theorem written_append_injective {o : Options} {s s' : Snippet}
    (hk : s'.presentKinds = s.presentKinds) (hi : s'.indentation = s.indentation)
    (ht : s'.task = s.task) (hc : s.Calm o) (hc' : s'.Calm o) {next next' : Text}
    (h : s'.written o ++ next' = s.written o ++ next) :
    s'.blocks o = s.blocks o ∧ next' = next := by
  rw [written_append, written_append, ht, hi] at h
  obtain ⟨hb, hrest⟩ := inner_append_injective (by rw [map_fst_blocks, map_fst_blocks, hk])
    (fun p hp => hi ▸ hc' p.1 p.2 (mem_blocks_iff.mp hp))
    (fun p hp => hc p.1 p.2 (mem_blocks_iff.mp hp)) (List.append_cancel_left h)
  exact ⟨hb, List.append_cancel_left hrest⟩

end Snippet

/-- A piece with a text in place of each snippet. -/
def Piece.spelled (source : Text) (f : Snippet → Text) : Piece → Text
  | text span => span.text source
  | snippet s => f s

/-- Some pieces with a text in place of each snippet. -/
def spelledPieces (source : Text) (f : Snippet → Text) (pieces : List Piece) : Text :=
  pieces.flatMap (Piece.spelled source f)

theorem spelledPieces_cons (source : Text) (f : Snippet → Text) (p : Piece) (r : List Piece) :
    spelledPieces source f (p :: r) = p.spelled source f ++ spelledPieces source f r := rfl

theorem writtenPieces_eq_spelledPieces (o : Options) (source : Text) (pieces : List Piece) :
    writtenPieces o source pieces = spelledPieces source (Snippet.written o) pieces := by
  have h : Piece.written o source = Piece.spelled source (Snippet.written o) := by
    funext p
    cases p <;> rfl
  rw [writtenPieces, spelledPieces, h]

/-- Pieces that are read again differ in their snippets alone. -/
theorem Rewritten.spelledPieces_eq {o : Options} {source target : Text}
    {pieces pieces' : List Piece} (h : List.Forall₂ (Rewritten o source target) pieces pieces')
    (f : Snippet → Text) :
    spelledPieces target f pieces' = spelledPieces source (fun s => f (s.reread o)) pieces := by
  induction h using Rewritten.induction with
  | nil => rfl
  | text span span' r r' hp _ ih =>
    rw [spelledPieces_cons, spelledPieces_cons, ih, Piece.spelled, Piece.spelled, hp]
  | snippet s r r' _ ih =>
    rw [spelledPieces_cons, spelledPieces_cons, ih]
    rfl

theorem forall_snippets_text {P : Snippet → Prop} {span : Span} {r : List Piece} :
    (∀ x ∈ (.text span :: r : List Piece).filterMap Piece.snippet?, P x) ↔
      ∀ x ∈ r.filterMap Piece.snippet?, P x := Iff.rfl

theorem spelledPieces_congr {source : Text} {f g : Snippet → Text} : ∀ {pieces : List Piece},
    (∀ s ∈ pieces.filterMap Piece.snippet?, f s = g s) →
    spelledPieces source f pieces = spelledPieces source g pieces
  | [], _ => rfl
  | .text span :: r, h => by
    rw [forall_snippets_text] at h
    rw [spelledPieces_cons, spelledPieces_cons, spelledPieces_congr h]
    rfl
  | .snippet s :: r, h => by
    rw [forall_snippets_cons] at h
    rw [spelledPieces_cons, spelledPieces_cons, spelledPieces_congr h.2, Piece.spelled, h.1]
    rfl

/-- Equal texts have equal parts, if the text of a snippet determines where it ends. -/
theorem forall_of_spelledPieces_eq {source : Text} {f g : Snippet → Text} {P : Snippet → Prop} :
    ∀ {pieces : List Piece}, (∀ s ∈ pieces.filterMap Piece.snippet?, ∀ next next',
      f s ++ next = g s ++ next' → P s ∧ next = next') →
    spelledPieces source f pieces = spelledPieces source g pieces →
    ∀ s ∈ pieces.filterMap Piece.snippet?, P s
  | [], _, _ => by simp
  | .text span :: r, hinj, h => by
    rw [spelledPieces_cons, spelledPieces_cons] at h
    rw [forall_snippets_text] at hinj ⊢
    exact forall_of_spelledPieces_eq hinj (List.append_cancel_left h)
  | .snippet s :: r, hinj, h => by
    rw [spelledPieces_cons, spelledPieces_cons] at h
    rw [forall_snippets_cons] at hinj ⊢
    obtain ⟨hs, hrest⟩ := hinj.1 _ _ h
    exact ⟨hs, forall_of_spelledPieces_eq hinj.2 hrest⟩

/-! ### A text there and back -/

/-- **Switching to another variant and back restores the text exactly when every snippet
comes back.** Texts in which toggling makes markers are left out: what is written then is
not read as the same snippets. -/
theorem render_back_iff {t : Text} {d : Document} (h : Document.parse t = .ok d) {o o' : Options}
    (hm : o.mode.keepsMarkup = true) (hm' : o'.mode.keepsMarkup = true)
    (hq : d.MakesNoMarkers o) :
    ∃ s d₁, d.render o = .ok s ∧ Document.parse s = .ok d₁ ∧ (d₁.MakesNoMarkers o' →
      ∃ u d₂, d₁.render o' = .ok u ∧ Document.parse u = .ok d₂ ∧
        (d₂.render o = .ok s ↔ ∀ x ∈ d.snippets, x.ComesBack o o')) := by
  obtain ⟨d₁, hp₁, hf₁⟩ := parse_written h ((Document.makesNoMarkers_iff h).mp hq)
  refine ⟨_, d₁, Document.render_eq_written h hm, hp₁, fun hq₁ => ?_⟩
  obtain ⟨d₂, hp₂, hf₂⟩ := parse_written hp₁ ((Document.makesNoMarkers_iff hp₁).mp hq₁)
  refine ⟨_, d₂, Document.render_eq_written hp₁ hm', hp₂, ?_⟩
  have hread := (readable_of_parse h).2.read
  have htext : writtenPieces o d₂.source d₂.pieces = spelledPieces d.source
      (fun x => ((x.reread o).reread o').written o) d.pieces := by
    rw [writtenPieces_eq_spelledPieces, Rewritten.spelledPieces_eq hf₂,
      Rewritten.spelledPieces_eq hf₁]
  have hsnippets : d₂.snippets = d.snippets.map fun x => (x.reread o).reread o' := by
    rw [Document.snippets, Rewritten.filterMap hf₂, Rewritten.filterMap hf₁, List.map_map]
    rfl
  rw [Document.render_eq_written hp₂ hm, Except.ok.injEq]
  constructor
  · intro he
    -- The text has the markers it should have, so the third rendering makes none, either.
    have hq₂ : d₂.MakesNoMarkers o := by
      rw [← Document.length_markers_eq_iff hp₂, he, (Document.length_markers_eq_iff h o).mpr hq,
        hsnippets, List.map_map]
      simp [Function.comp_def, Snippet.presentKinds_reread]
    have hcalm := (Document.makesNoMarkers_iff h).mp hq
    have hcalm₂ := (Document.makesNoMarkers_iff hp₂).mp hq₂
    rw [htext, writtenPieces_eq_spelledPieces] at he
    have hblocks : ∀ x ∈ d.snippets, ((x.reread o).reread o').blocks o = x.blocks o := by
      refine forall_of_spelledPieces_eq (fun x hx next next' hn => ?_) he
      have hkinds : ((x.reread o).reread o').presentKinds = x.presentKinds := by
        rw [Snippet.presentKinds_reread, Snippet.presentKinds_reread]
      have hmem : (x.reread o).reread o' ∈ d₂.snippets := hsnippets ▸ List.mem_map_of_mem hx
      exact Snippet.written_append_injective hkinds rfl rfl (hcalm x hx) (hcalm₂ _ hmem) hn
    exact fun x hx => ((hread x hx).comesBack_iff o o').mpr (hblocks x hx)
  · intro hs
    rw [htext, writtenPieces_eq_spelledPieces]
    refine spelledPieces_congr fun x hx => ?_
    have hb := ((hread x hx).comesBack_iff o o').mp (hs x hx)
    show Snippet.written o _ = _
    rw [Snippet.written, Snippet.written, hb]
    rfl

/-- A comment for students next to a solution, with a space behind its mark. -/
def todo : Text :=
  ("//<snippet>\n//<student>\n// TODO: call code()\n//</student>\n".toList
    ++ "//<solution>\ncode();\n//</solution>\n//</snippet>".toList)

theorem render_back_iff_todo : ∃ d s d₁ u d₂, Document.parse todo = .ok d ∧
    d.render ⟨.fullSolution, none, false⟩ = .ok s ∧ Document.parse s = .ok d₁ ∧
      d₁.render ⟨.fullStudent, none, false⟩ = .ok u ∧ Document.parse u = .ok d₂ ∧
        d₂.render ⟨.fullSolution, none, false⟩ ≠ .ok s := by
  let x : Snippet := ⟨[], none, some ⟨["// TODO: call code()".toList], false⟩,
    some ⟨["code();".toList], true⟩, none⟩
  let d : Document := ⟨todo, [.snippet x]⟩
  have h : Document.parse todo = .ok d := by decide +kernel
  have hsame : d.render ⟨.fullSolution, none, false⟩ = .ok todo := by decide +kernel
  have hq : d.MakesNoMarkers ⟨.fullSolution, none, false⟩ := by
    intro x' hx k v b hv hne _
    obtain rfl : x' = x := List.mem_singleton.mp hx
    cases k with
    | student => cases hv; exact absurd rfl hne
    | solution => cases hv; exact absurd rfl hne
    | special => cases hv
  have hq' : d.MakesNoMarkers ⟨.fullStudent, none, false⟩ := by
    intro x' hx k v b hv _ hb
    obtain rfl : x' = x := List.mem_singleton.mp hx
    cases k with
    | student => cases hv; cases hb; decide +kernel
    | solution => cases hv; cases hb; decide +kernel
    | special => cases hv
  obtain ⟨s, d₁, hs, hp₁, hback⟩ := @render_back_iff _ d h ⟨.fullSolution, none, false⟩
    ⟨.fullStudent, none, false⟩ rfl rfl hq
  obtain rfl : s = todo := Except.ok.inj (hs.symm.trans hsame)
  obtain rfl : d₁ = d := Except.ok.inj (hp₁.symm.trans h)
  obtain ⟨u, d₂, hu, hp₂, hiff⟩ := hback hq'
  refine ⟨d, todo, d, u, d₂, h, hs, hp₁, hu, hp₂, fun he => ?_⟩
  -- No live block gives this comment: made live and commented out again, it loses the space.
  let block : Text := "// TODO: call code()".toList
  have hx := (hiff.mp he x (List.mem_singleton.mpr rfl)).instead (by decide) block ⟨_, rfl, rfl⟩
  simp only [Variant.render_ofBlock, Except.ok.injEq] at hx
  have hunbroken : Unbroken [] := fun c hc => absurd hc List.not_mem_nil
  have hlost := (Variant.shown_back_iff hunbroken (fun c hc => absurd hc List.not_mem_nil) block
    (by decide)).mpr hx
  exact absurd hlost (by decide)

end Handout
