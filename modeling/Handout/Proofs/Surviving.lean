/-
# What a rewritten snippet keeps

When the markup is kept, the text that replaces a snippet is made of lines of markers
and of the lines of its variants (`Snippet.Read.lines_written`), and a variant is read
from the first tag of its kind. So every line of such a tag that is not blank stands in
the output, with other blanks before it and a comment mark more or less
(`Snippet.Read.exists_line`). Nothing else of the snippet does: text beside the tags and
further tags of the same kind are accepted and leave no line (`Snippet.Read.line_cases`).

A line is compared by its `content`. The blanks at the end of a block are trimmed away
with those of its last line (`solidLines`).

Key definitions: `solidLines`, `SameUpToMark`, `Snippet.FirstBlock`, `Rewrites`.
Key theorems: `Text.lines_append`, `solidLines_eq`, `Variant.shownLines_eq_map`,
`Snippet.Read.lines_written`, `render_keeps_first_blocks`.
-/
import Handout.Proofs.RoundTrip
import Mathlib.Data.List.DropRight

namespace Handout

open Marker

/-! ### Lines of texts that are joined -/

theorem unbroken_iff {t : Text} : Unbroken t ↔ '\r' ∉ t ∧ '\n' ∉ t := by
  refine ⟨fun h => ⟨fun hm => (h _ hm).1 rfl, fun hm => (h _ hm).2 rfl⟩, fun h c hc => ?_⟩
  exact ⟨fun he => h.1 (he ▸ hc), fun he => h.2 (he ▸ hc)⟩

namespace Text

/-- The last line of a text and the first line of what follows become one, unless the two
texts share a line break. -/
theorem lines_append (a : Text) {b : Text} (h : a.getLast? ≠ some '\r' ∨ b.head? ≠ some '\n') :
    ∃ front x y rest, a.lines = front ++ [x] ∧ b.lines = y :: rest ∧
      (a ++ b).lines = front ++ (x ++ y) :: rest := by
  have hlast : ∀ {c : Char} {r : Text}, (c :: r).getLast? ≠ some '\r' ∨ b.head? ≠ some '\n' →
      r.getLast? ≠ some '\r' ∨ b.head? ≠ some '\n' := by
    intro c r
    exact Or.imp_left (mt fun he => by rw [List.getLast?_cons, he]; rfl)
  fun_induction lines a with
  | case1 =>
    obtain ⟨y, rest, hb⟩ := List.exists_cons_of_ne_nil (lines_ne_nil b)
    exact ⟨[], [], y, rest, rfl, hb, hb⟩
  | case2 r ih =>
    obtain ⟨front, x, y, rest, hr, hb, hrb⟩ := ih (hlast (hlast h))
    refine ⟨[] :: front, x, y, rest, by rw [hr]; rfl, hb, ?_⟩
    rw [List.cons_append, List.cons_append, lines, hrb]
    rfl
  | case3 r hn ih =>
    obtain ⟨front, x, y, rest, hr, hb, hrb⟩ := ih (hlast h)
    refine ⟨[] :: front, x, y, rest, by rw [hr]; rfl, hb, ?_⟩
    -- the break before `b` is not shared with it
    have hfeed : ∀ u, r ++ b ≠ '\n' :: u := by
      intro u hu
      cases r with
      | nil =>
        rw [List.nil_append] at hu
        rw [hu] at h
        exact h.elim (fun h => h rfl) fun h => h rfl
      | cons c r =>
        rw [List.cons_append, List.cons.injEq] at hu
        exact hn r (by rw [hu.1])
    have hbreak : lines ('\r' :: (r ++ b)) = [] :: lines (r ++ b) := by
      rw [lines]
      exact hfeed
    rw [List.cons_append, hbreak, hrb]
    rfl
  | case4 r ih =>
    obtain ⟨front, x, y, rest, hr, hb, hrb⟩ := ih (hlast h)
    refine ⟨[] :: front, x, y, rest, by rw [hr]; rfl, hb, ?_⟩
    rw [List.cons_append, lines, hrb]
    rfl
  | case5 c r _ hcr hcn ih =>
    obtain ⟨front, x, y, rest, hr, hb, hrb⟩ := ih (hlast h)
    rw [List.cons_append, lines_cons hcr hcn, hr, hrb]
    cases front with
    | nil => exact ⟨[], c :: x, y, rest, rfl, hb, rfl⟩
    | cons f front => exact ⟨(c :: f) :: front, x, y, rest, rfl, hb, rfl⟩

/-- A text without carriage returns ends before a line feed. -/
theorem lines_append_feed_of_no_return {a : Text} (h : '\r' ∉ a) (b : Text) :
    (a ++ '\n' :: b).lines = a.lines ++ b.lines := by
  obtain ⟨front, x, y, rest, ha, hb, hab⟩ := lines_append a (b := '\n' :: b)
    (.inl fun hl => h (List.mem_of_getLast? hl))
  rw [lines] at hb
  cases hb
  rw [hab, ha, List.append_nil, List.append_assoc]
  rfl

/-- Text before a first line without breaks. -/
theorem lines_append_of_unbroken {a : Text} (h : Unbroken a) (b : Text) :
    ∃ y rest, b.lines = y :: rest ∧ (a ++ b).lines = (a ++ y) :: rest := by
  obtain ⟨front, x, y, rest, ha, hb, hab⟩ := lines_append a (b := b)
    (.inl fun hl => (h _ (List.mem_of_getLast? hl)).1 rfl)
  rw [lines_of_unbroken h] at ha
  obtain ⟨rfl, rfl⟩ : front = [] ∧ x = a := by
    cases front with
    | nil => cases ha; exact ⟨rfl, rfl⟩
    | cons f front => simp at ha
  exact ⟨y, rest, hb, hab⟩

theorem mem_of_mem_lines (t : Text) : ∀ l ∈ t.lines, ∀ c ∈ l, c ∈ t := by
  fun_induction lines t with
  | case1 => simp
  | case2 r ih | case3 r _ ih | case4 r ih =>
    intro l hl c hc
    rcases List.mem_cons.mp hl with rfl | hl
    · cases hc
    · simp [ih l hl c hc]
  | case5 d r _ _ _ ih =>
    intro l hl c hc
    obtain ⟨y, rest, hr⟩ := List.exists_cons_of_ne_nil (lines_ne_nil r)
    rw [hr] at hl ih
    rcases List.mem_cons.mp hl with rfl | hl
    · rcases List.mem_cons.mp hc with rfl | hc
      · exact List.mem_cons_self ..
      · exact List.mem_cons_of_mem _ (ih y (List.mem_cons_self ..) c hc)
    · exact List.mem_cons_of_mem _ (ih l (List.mem_cons_of_mem _ hl) c hc)

/-- The lines of a text other than its first and last are lines of all that holds it. -/
theorem mem_lines_of_middle {a b c l : Text} {x y : Text} {middle : List Text}
    (hb : b.lines = x :: (middle ++ [y])) (hfirst : b.head? ≠ some '\n')
    (hlast : b.getLast? ≠ some '\r') (hl : l ∈ middle) : l ∈ (a ++ b ++ c).lines := by
  obtain ⟨front, u, v, rest, -, hv, hab⟩ := lines_append a (b := b) (.inr hfirst)
  rw [hb] at hv
  cases hv
  have hne : b ≠ [] := by
    rintro rfl
    have := congrArg List.length hb
    simp [lines] at this
  have habl : (a ++ b).getLast? ≠ some '\r' := by
    rwa [List.getLast?_append_of_ne_nil a hne]
  obtain ⟨front', u', v', rest', hfront, -, habc⟩ := lines_append (a ++ b) (b := c) (.inl habl)
  rw [hab, ← List.cons_append, ← List.append_assoc] at hfront
  obtain ⟨rfl, -⟩ := List.append_inj' hfront rfl
  rw [habc]
  simp [hl]

end Text

/-! ### Lines that are not blank -/

/-- The lines of a block that are not blank, without the blanks before them. The blanks at
the end of the block are not part of its last line. -/
def solidLines (block : Text) : List Text :=
  (block.stripEnd.lines.map content).filter fun l => !l.isEmpty

theorem content_eq_nil {t : Text} (h : AllBlank t) : content t = [] :=
  List.dropWhile_eq_nil_iff.mpr h

/-- The blanks before a block make no difference to its lines. -/
theorem solidLines_eq (block : Text) :
    solidLines block = (block.strip.lines.map content).filter fun l => !l.isEmpty := by
  obtain ⟨w, v, hw, hv, hblock⟩ := Text.exists_strip block
  by_cases h0 : block.strip = []
  · have hblank : AllBlank block := by
      rw [hblock, h0, List.append_nil]
      exact hw.append hv
    rw [solidLines, Text.stripEnd_eq_nil hblank, h0]
  · have hend : block.stripEnd = w ++ block.strip := by
      conv_lhs => rw [hblock, Text.stripEnd_append_right hv]
      refine Text.stripEnd_eq_self fun c hc => ?_
      rw [List.getLast?_append_of_ne_nil w h0] at hc
      exact Text.strip_getLast hc
    have hfirst : block.strip.head? ≠ some '\n' := fun h => by
      have := Text.strip_head h
      exact absurd this (by decide)
    obtain ⟨front, x, y, rest, hwl, hs, hws⟩ := Text.lines_append w (b := block.strip) (.inr hfirst)
    have hline : ∀ l ∈ front ++ [x], AllBlank l := fun l hl c hc =>
      hw c (Text.mem_of_mem_lines w l (hwl ▸ hl) c hc)
    have hfront : (front.map content).filter (fun l => !l.isEmpty) = [] := by
      rw [List.filter_eq_nil_iff]
      intro l hl
      obtain ⟨m, hm, rfl⟩ := List.mem_map.mp hl
      simp [content_eq_nil (hline m (List.mem_append_left _ hm))]
    rw [solidLines, hend, hws, hs, List.map_append, List.filter_append, hfront, List.nil_append,
      List.map_cons, List.map_cons, content_append_blank (hline x (by simp))]

/-! ### The same line with a mark more or less -/

/-- The content of a line without one comment mark, if there is one. -/
def unmarked (line : Text) : Text :=
  if commentMark.isPrefixOf (content line) then content ((content line).drop commentMark.length)
  else content line

/-- The lines are the same up to the blanks before them and one comment mark. -/
def SameUpToMark (line line' : Text) : Prop :=
  content line = content line' ∨ unmarked line = content line' ∨ content line = unmarked line'

instance (line line' : Text) : Decidable (SameUpToMark line line') :=
  inferInstanceAs (Decidable (_ ∨ _ ∨ _))

theorem content_content (line : Text) : content (content line) = content line :=
  List.dropWhile_idempotent _ _

theorem unmarked_congr {line line' : Text} (h : content line = content line') :
    unmarked line = unmarked line' := by
  unfold unmarked
  rw [h]

theorem SameUpToMark.congr {a a' b b' : Text} (h : SameUpToMark a b) (ha : content a' = content a)
    (hb : content b' = content b) : SameUpToMark a' b' := by
  unfold SameUpToMark
  rwa [ha, hb, unmarked_congr ha, unmarked_congr hb]

theorem unmarked_mark (t : Text) : unmarked (commentMark ++ t) = content t := by
  rw [unmarked, commentMark_content, if_pos (by simp)]
  simp

theorem sameUpToMark_commentLine {indentation : Text} (hi : AllBlank indentation) (line : Text) :
    SameUpToMark line (commentLine indentation line) := by
  have hrest : AllBlank ((leading line).drop indentation.length) :=
    fun c hc => leading_allBlank line c (List.mem_of_mem_drop hc)
  unfold commentLine
  split_ifs with h0 hp
  · exact .inl rfl
  · right; right
    rw [List.append_assoc, List.append_assoc, unmarked_congr (content_append_blank hi _),
      unmarked_mark, content_append_blank hrest, content_content]
  · right; right
    rw [List.append_assoc, unmarked_congr (content_append_blank (leading_allBlank line) _),
      unmarked_mark, content_content]

theorem sameUpToMark_bareLine {line : Text} (h : isLive line = false) :
    SameUpToMark line (bareLine line) := by
  unfold bareLine
  split_ifs with h0
  · exact .inl rfl
  · right; left
    have hmark : commentMark.isPrefixOf (content line) = true := by simpa [isLive, h0] using h
    rw [unmarked, if_pos hmark, content_append_blank (leading_allBlank line)]

/-- **A block is shown line by line**, each the same up to a comment mark, and a blank one
as it is. -/
theorem Variant.shownLines_eq_map (raw : Text) (wantLive : Bool) {indentation : Text}
    (hi : AllBlank indentation) : ∃ f : Text → Text,
      (ofBlock raw).shownLines wantLive indentation = (ofBlock raw).lines.map f ∧
        ∀ l ∈ (ofBlock raw).lines, SameUpToMark l (f l) ∧ (content l = [] → f l = l) := by
  unfold shownLines
  split
  · refine ⟨_, rfl, fun l _ => ⟨sameUpToMark_commentLine hi l, fun h0 => ?_⟩⟩
    simp [commentLine, h0]
  · rename_i hlive
    rw [live_ofBlock, List.any_eq_false] at hlive
    refine ⟨_, rfl, fun l hl => ⟨sameUpToMark_bareLine (by simpa using hlive l hl), fun h0 => ?_⟩⟩
    simp [bareLine, h0]
  · exact ⟨id, by simp, fun l _ => ⟨.inl rfl, fun _ => rfl⟩⟩

/-- The lines of a variant are those of its trimmed block. -/
theorem Variant.mem_solidLines_iff {raw line : Text} :
    line ∈ solidLines raw ↔ ∃ l ∈ (ofBlock raw).lines, content l ≠ [] ∧ content l = line := by
  rw [solidLines_eq, ofBlock_eq]
  by_cases h0 : raw.strip = []
  · simp [h0, Text.lines, content, ofLines]
  · simp only [h0, if_false, ofLines, List.mem_filter, List.mem_map, Bool.not_eq_true',
      List.isEmpty_eq_false_iff]
    constructor
    · rintro ⟨⟨l, hl, rfl⟩, hne⟩
      exact ⟨l, hl, hne, rfl⟩
    · rintro ⟨l, hl, hne, rfl⟩
      exact ⟨⟨l, hl, rfl⟩, hne⟩

/-! ### The lines of a written snippet -/

namespace Snippet

/-- The lines between the first and the last marker of a snippet. -/
def innerLines (indentation : Text) (blocks : List (Kind × Text)) : List Text :=
  blocks.flatMap fun p => (indentation ++ openingText p.1.name []) ::
    ((indentation ++ p.2).lines ++ [indentation ++ closingText p.1.name])

theorem unbroken_openingText {w g : Text} (hw : IsName w) (hg : Unbroken g) :
    Unbroken (openingText w g) := by
  rw [unbroken_iff] at hg ⊢
  simp [openingText_eq, hw.not_mem (c := '\r') (by decide), hw.not_mem (c := '\n') (by decide), hg]

theorem unbroken_closingText {w : Text} (hw : IsName w) : Unbroken (closingText w) := by
  rw [unbroken_iff]
  simp [closingText_eq, hw.not_mem (c := '\r') (by decide), hw.not_mem (c := '\n') (by decide)]

theorem unbroken_taskMarkup {task : Option TaskNumber}
    (h : ∀ n, task = some n → ∀ l ∈ n.levels, l ≤ 9) : Unbroken (taskMarkup task) := by
  cases task with
  | none => simp [taskMarkup, Unbroken]
  | some n =>
    have hr := TaskNumber.not_mem_text (h n rfl) (c := '\r') (by decide) (by decide)
    have hn := TaskNumber.not_mem_text (h n rfl) (c := '\n') (by decide) (by decide)
    have hkey : '\r' ∉ taskKey ∧ '\n' ∉ taskKey := by decide
    rw [unbroken_iff]
    simp [taskMarkup, hr, hn, hkey]

theorem lines_inner {indentation : Text} (hi : Unbroken indentation) {last : Text}
    (hlast : Unbroken last) : ∀ {blocks : List (Kind × Text)} {first : Text}, Unbroken first →
    (∀ p ∈ blocks, '\r' ∉ p.2) →
    (first ++ (inner indentation blocks ++ last)).lines =
      first :: (innerLines indentation blocks ++ [indentation ++ last])
  | [], first, hfirst, _ => by
    rw [inner, startLine, List.cons_append, Text.lines_append_feed hfirst,
      Text.lines_of_unbroken (hi.append hlast)]
    rfl
  | (k, b) :: r, first, hfirst, hno => by
    have hopening : Unbroken (openingText k.name []) :=
      unbroken_openingText k.isName (by simp [Unbroken])
    have hblock : '\r' ∉ indentation ++ b := by
      rw [List.mem_append, not_or]
      exact ⟨(unbroken_iff.mp hi).1, hno _ (List.mem_cons_self ..)⟩
    have ih := lines_inner hi hlast (hi.append (unbroken_closingText k.isName))
      fun p hp => hno p (List.mem_cons_of_mem _ hp)
    have htext : first ++ (inner indentation ((k, b) :: r) ++ last) =
        first ++ '\n' :: (indentation ++ openingText k.name [] ++ '\n' :: (indentation ++ b ++
          '\n' :: (indentation ++ closingText k.name ++ (inner indentation r ++ last)))) := by
      simp [inner, startLine]
    rw [htext, Text.lines_append_feed hfirst, Text.lines_append_feed (hi.append hopening),
      Text.lines_append_feed_of_no_return hblock, ih]
    simp [innerLines]

theorem head?_written (o : Options) (s : Snippet) : (s.written o).head? = some '/' := by
  rw [written, openingText_eq]
  rfl

theorem getLast?_written (o : Options) (s : Snippet) : (s.written o).getLast? = some '>' := by
  rw [written, closingText, ← List.append_assoc, ← List.append_assoc, List.getLast?_concat]

/-- **A written snippet is its markers and its blocks, line by line.** -/
theorem Read.lines_written {s : Snippet} (h : s.Read) (o : Options) :
    (s.written o).lines = openingText tagName (taskMarkup s.task) ::
      (innerLines s.indentation (s.blocks o) ++ [s.indentation ++ closingText tagName]) :=
  lines_inner h.unbroken (unbroken_closingText isName_tagName)
    (unbroken_openingText isName_tagName (unbroken_taskMarkup h.task))
    fun _ hp => h.not_mem_block (mem_blocks_iff.mp hp)

/-- A line that holds a marker after blanks. -/
theorem marksAt_content {indentation t : Text} (hi : AllBlank indentation)
    (ht : marksAt t = true) : marksAt (content (indentation ++ t)) = true := by
  obtain ⟨r, hr⟩ : ∃ r, t = commentMark ++ r := by
    rcases marksAt_iff.mp ht with ⟨w, g, r, -, rfl⟩ | ⟨w, r, -, rfl⟩
    · exact ⟨['<'] ++ w ++ g ++ ['>'] ++ r, by simp [openingText]⟩
    · exact ⟨['<', '/'] ++ w ++ ['>'] ++ r, by simp [closingText]⟩
  have hcontent : content t = t := by rw [hr, commentMark_content]
  rw [content_append_blank hi, hcontent, ht]

theorem marksAt_openingText {w g : Text} (h : IsOpening w g) : marksAt (openingText w g) = true :=
  marksAt_iff.mpr (.inl ⟨w, g, [], h, (List.append_nil _).symm⟩)

/-- A block on a line after the indentation shows the lines of its variant, and beyond
them at most a blank one. -/
theorem Read.lines_block {s : Snippet} (h : s.Read) (raw : Text) (wantLive : Bool) :
    let shown := (Variant.ofBlock raw).shown wantLive s.indentation
    (∀ l ∈ (Variant.ofBlock raw).lines, ∃ line' ∈ (s.indentation ++ shown).lines,
        SameUpToMark l line') ∧
      ∀ line' ∈ (s.indentation ++ shown).lines, content line' = [] ∨
        ∃ l ∈ (Variant.ofBlock raw).lines, content l ≠ [] ∧ SameUpToMark l line' := by
  intro shown
  obtain ⟨f, hf, hsame⟩ := Variant.shownLines_eq_map raw wantLive h.allBlank
  obtain ⟨y, rest, hy, hlines⟩ := Text.lines_append_of_unbroken h.unbroken shown
  have hindent : content (s.indentation ++ y) = content y := content_append_blank h.allBlank y
  by_cases h0 : (Variant.ofBlock raw).lines = []
  · have hshown : shown = [] := by
      show Text.joinWith _ _ = _
      rw [hf, h0]
      rfl
    rw [hshown] at hy
    cases hy
    refine ⟨by simp [h0], fun line' hl => .inl ?_⟩
    rw [hlines, List.append_nil, List.mem_singleton] at hl
    rw [hl]
    exact content_eq_nil h.allBlank
  · have hall : shown.lines = (Variant.ofBlock raw).lines.map f := by
      rw [← hf]
      refine Text.lines_joinWith ?_ (Variant.shownLines_unbroken h.unbroken raw wantLive)
      rw [hf]
      simpa using h0
    rw [hy] at hall
    rw [hlines]
    constructor
    · intro l hl
      have hmem : f l ∈ y :: rest := hall ▸ List.mem_map_of_mem hl
      rcases List.mem_cons.mp hmem with he | hmem
      · exact ⟨_, List.mem_cons_self .., (hsame l hl).1.congr rfl (hindent.trans (he ▸ rfl))⟩
      · exact ⟨f l, List.mem_cons_of_mem _ hmem, (hsame l hl).1⟩
    · intro line' hl
      obtain ⟨z, hz, hcontent⟩ : ∃ z ∈ y :: rest, content line' = content z := by
        rcases List.mem_cons.mp hl with rfl | hl
        · exact ⟨y, List.mem_cons_self .., hindent⟩
        · exact ⟨line', List.mem_cons_of_mem _ hl, rfl⟩
      rw [hall] at hz
      obtain ⟨l, hmem, rfl⟩ := List.mem_map.mp hz
      by_cases hblank : content l = []
      · exact .inl (by rw [hcontent, (hsame l hmem).2 hblank, hblank])
      · exact .inr ⟨l, hmem, hblank, (hsame l hmem).1.congr rfl hcontent⟩

/-! ### The first tags of a snippet -/

/-- The block of text that the first tag of some name holds. -/
def FirstBlock (source : Text) (children : List Node) (block : Text) : Prop :=
  ∃ name opening span, Node.findTag? name children = some (opening, [.text span]) ∧
    block = span.text source

theorem variantOf_eq_some_iff {source : Text} {children : List Node} {k : Kind} {v : Variant} :
    variantOf source children k = .ok (some v) ↔ ∃ opening span,
      Node.findTag? k.name children = some (opening, [.text span]) ∧
        v = Variant.ofBlock (span.text source) := by
  unfold variantOf
  generalize Node.findTag? k.name children = found
  match found with
  | none => simp
  | some (_, []) => simp
  | some (_, [.text span]) => simp [eq_comm]
  | some (_, .tag .. :: _) => simp
  | some (_, .text _ :: _ :: _) => simp

section

variable {source : Text} {opening : Opening} {children : List Node} {s : Snippet} {o : Options}

/-- A tag in a snippet is named for a kind. -/
theorem exists_kind (h : ofTag source opening children = .ok s) {name : Text}
    {first : Opening × List Node} (hf : Node.findTag? name children = some first) :
    ∃ k : Kind, name = k.name := by
  obtain ⟨-, -, -, hu, -⟩ := ofTag_eq_ok_iff.mp h
  have hname : first.1.name = name := by simpa using List.find?_some hf
  have hmem : first ∈ Node.tags children := List.mem_of_find?_eq_some hf
  rw [unknownNames, List.filter_eq_nil_iff] at hu
  have hknown := hu name (List.mem_map.mpr ⟨first, hmem, hname⟩)
  obtain ⟨k, -, hk⟩ : ∃ k ∈ Kind.all, k.name = name := by simpa using hknown
  exact ⟨k, hk.symm⟩

/-- The first tags of a snippet hold a run of text or nothing. -/
theorem first_cases (h : ofTag source opening children = .ok s) {name : Text} {first : Opening}
    {inside : List Node} (hf : Node.findTag? name children = some (first, inside)) :
    inside = [] ∨ ∃ span, inside = [.text span] := by
  obtain ⟨k, rfl⟩ := exists_kind h hf
  have hv := (ofTag_eq_ok_iff.mp h).2.2.1 k
  unfold variantOf at hv
  rw [hf] at hv
  match inside with
  | [] => exact .inl rfl
  | [.text span] => exact .inr ⟨span, rfl⟩
  | .tag .. :: _ => cases hv
  | .text _ :: _ :: _ => cases hv

/-- The variants of a snippet are read from the first tags. -/
theorem exists_variant_of_firstBlock (h : ofTag source opening children = .ok s) {block : Text}
    (hb : FirstBlock source children block) :
    ∃ k, s.variant? k = some (Variant.ofBlock block) := by
  obtain ⟨name, first, span, hf, rfl⟩ := hb
  obtain ⟨k, rfl⟩ := exists_kind h hf
  have hv : variantOf source children k = .ok (some (Variant.ofBlock (span.text source))) :=
    variantOf_eq_some_iff.mpr ⟨first, span, hf, rfl⟩
  rw [(ofTag_eq_ok_iff.mp h).2.2.1 k, Except.ok.injEq] at hv
  exact ⟨k, hv⟩

theorem exists_firstBlock_of_variant (h : ofTag source opening children = .ok s) {k : Kind}
    {v : Variant} (hv : s.variant? k = some v) :
    ∃ block, FirstBlock source children block ∧ v = Variant.ofBlock block := by
  have hk := (ofTag_eq_ok_iff.mp h).2.2.1 k
  rw [hv] at hk
  obtain ⟨first, span, hf, rfl⟩ := variantOf_eq_some_iff.mp hk
  exact ⟨_, ⟨k.name, first, span, hf, rfl⟩, rfl⟩

/-- **The lines of the first tags are kept.** -/
theorem Read.exists_line (hs : s.Read) (h : ofTag source opening children = .ok s) (o : Options)
    {block line : Text} (hb : FirstBlock source children block) (hl : line ∈ solidLines block) :
    ∃ line' ∈ innerLines s.indentation (s.blocks o), SameUpToMark line line' := by
  obtain ⟨k, hv⟩ := exists_variant_of_firstBlock h hb
  obtain ⟨l, hmem, -, rfl⟩ := Variant.mem_solidLines_iff.mp hl
  set shown := (Variant.ofBlock block).shown ((activationFor o s).isActive k) s.indentation
  have hblock : s.block? o k = some shown := by rw [block?, hv]; rfl
  obtain ⟨line', hline', hsame⟩ := (hs.lines_block block _).1 l hmem
  refine ⟨line', List.mem_flatMap.mpr ⟨(k, shown), mem_blocks_iff.mpr hblock, ?_⟩,
    hsame.congr (content_content l) rfl⟩
  exact List.mem_cons_of_mem _ (List.mem_append_left _ hline')

/-- **Nothing else of a snippet is kept.** A line of what is written for it is blank or a
marker, or it stands for a line of a first tag. -/
theorem Read.line_cases (hs : s.Read) (h : ofTag source opening children = .ok s) (o : Options)
    {line' : Text} (hl : line' ∈ (s.written o).lines) :
    AllBlank line' ∨ marksAt (content line') = true ∨ ∃ block line,
      FirstBlock source children block ∧ line ∈ solidLines block ∧ SameUpToMark line line' := by
  have hclosing : ∀ {w}, IsName w → marksAt (closingText w) = true := fun hw => by
    simpa using marksAt_closingText hw []
  rw [hs.lines_written, List.mem_cons, List.mem_append, List.mem_singleton] at hl
  rcases hl with rfl | hl | rfl
  · have hnil : AllBlank [] := by simp [AllBlank]
    have hfirst := marksAt_content hnil (marksAt_openingText (isOpening_taskMarkup hs.task))
    exact .inr (.inl hfirst)
  · obtain ⟨⟨k, b⟩, hkb, hl⟩ := List.mem_flatMap.mp hl
    rw [List.mem_cons, List.mem_append, List.mem_singleton] at hl
    rcases hl with rfl | hl | rfl
    · exact .inr (.inl (marksAt_content hs.allBlank (marksAt_openingText (isOpening_nil k.isName))))
    · obtain ⟨v, hv, rfl⟩ := exists_of_block? (mem_blocks_iff.mp hkb)
      obtain ⟨block, hfirst, rfl⟩ := exists_firstBlock_of_variant h hv
      rcases (hs.lines_block block _).2 line' hl with hblank | ⟨l, hmem, hsolid, hsame⟩
      · exact .inl (List.dropWhile_eq_nil_iff.mp hblank)
      · exact .inr (.inr ⟨block, content l, hfirst, Variant.mem_solidLines_iff.mpr
          ⟨l, hmem, hsolid, rfl⟩, hsame.congr (content_content l) rfl⟩)
    · exact .inr (.inl (marksAt_content hs.allBlank (hclosing k.isName)))
  · exact .inr (.inl (marksAt_content hs.allBlank (hclosing isName_tagName)))

end

end Snippet

/-! ### The whole text -/

/-- A node of a text and what is written for it: a run of text as it is, and for a snippet
nothing but blank lines, markers and lines of its first tags. -/
def Rewrites (source : Text) : Node → Text → Prop
  | .text span, body => body = span.text source
  | .tag _ _ children, body => ∀ line' ∈ body.lines, AllBlank line' ∨
      marksAt (content line') = true ∨ ∃ block line,
        Snippet.FirstBlock source children block ∧ line ∈ solidLines block ∧ SameUpToMark line line'

theorem Readable.rewrites {source : Text} (o : Options) {nodes : List Node} {pieces : List Piece}
    (hp : List.Forall₂ (PieceOf source) nodes pieces) : ∀ {gap : Text}, Readable source gap pieces →
    List.Forall₂ (Rewrites source) nodes (pieces.map (Piece.written o source)) := by
  induction hp with
  | nil => exact fun _ => .nil
  | @cons node piece nodes pieces hnode _ ih =>
    intro gap h
    match node, piece, hnode, h with
    | .text span, .text _, rfl, h => exact .cons rfl (ih h.2.2.2.2)
    | .tag _ _ children, .snippet s, ⟨_, hs⟩, h =>
      exact .cons (fun line' hl => h.2.1.line_cases hs o hl) (ih h.2.2)

/-- The text of a snippet stands between other texts in what is written. -/
theorem Readable.exists_written {source : Text} (o : Options) {nodes : List Node}
    {pieces : List Piece} (hp : List.Forall₂ (PieceOf source) nodes pieces) :
    ∀ {gap : Text}, Readable source gap pieces → ∀ {opening closing children},
      .tag opening closing children ∈ nodes → ∃ s before after, s.Read ∧
        Snippet.ofTag source opening children = .ok s ∧
        writtenPieces o source pieces = before ++ s.written o ++ after := by
  induction hp with
  | nil => exact fun _ _ _ _ hm => absurd hm (List.not_mem_nil)
  | @cons node piece nodes pieces hnode _ ih =>
    intro gap h opening closing children hm
    rw [writtenPieces_cons]
    rcases List.mem_cons.mp hm with rfl | hm
    · match piece, hnode, h with
      | .snippet s, ⟨_, hs⟩, h => exact ⟨s, [], _, h.2.1, hs, rfl⟩
    · have hrest : ∃ gap', Readable source gap' pieces := by
        match piece, h with
        | .text _, h => exact ⟨_, h.2.2.2.2⟩
        | .snippet _, h => exact ⟨_, h.2.2⟩
      obtain ⟨gap', hrest⟩ := hrest
      obtain ⟨s, before, after, hread, hs, hw⟩ := ih hrest hm
      exact ⟨s, piece.written o source ++ before, after, hread, hs, by rw [hw]; simp⟩

/-- **A rendering with the markup keeps the first tag of each kind and nothing else.** It
never fails. What it writes for a run of text is this text; what it writes for a snippet
has no lines but blank ones, markers and lines of first tags. And every line of a first
tag that is not blank stands in the output, up to the blanks before it and one comment
mark. -/
theorem render_keeps_first_blocks {t : Text} {d : Document} (h : Document.parse t = .ok d)
    {o : Options} (hm : o.mode.keepsMarkup = true) : ∃ nodes bodies,
      parseForest t = .ok nodes ∧ d.render o = .ok bodies.flatten ∧
      List.Forall₂ (Rewrites t) nodes bodies ∧
      ∀ opening closing children, .tag opening closing children ∈ nodes →
        (∀ name first inside, Node.findTag? name children = some (first, inside) →
          inside = [] ∨ ∃ span, inside = [.text span]) ∧
        ∀ block, Snippet.FirstBlock t children block → ∀ line ∈ solidLines block,
          ∃ line' ∈ Text.lines bodies.flatten, SameUpToMark line line' := by
  obtain ⟨hsource, nodes, htiles, hpieces⟩ := parse_eq_ok_iff.mp h
  obtain ⟨-, hreadable⟩ := readable_of_parse h
  have hrender := Document.render_eq_written h hm
  rw [hsource] at hreadable hrender
  have hflat : (d.pieces.map (Piece.written o t)).flatten = writtenPieces o t d.pieces :=
    List.flatMap_def.symm
  refine ⟨nodes, d.pieces.map (Piece.written o t), parseForest_eq_ok_iff.mpr htiles, ?_,
    Readable.rewrites o hpieces hreadable, fun opening closing children hmem => ?_⟩
  · rw [hflat, hrender]
  · obtain ⟨s, before, after, hread, hs, hw⟩ := Readable.exists_written o hpieces hreadable hmem
    refine ⟨fun name first inside => Snippet.first_cases hs, fun block hb line hl => ?_⟩
    obtain ⟨line', hline', hsame⟩ := hread.exists_line hs o hb hl
    refine ⟨line', ?_, hsame⟩
    rw [hflat, hw]
    exact Text.mem_lines_of_middle (hread.lines_written o) (by simp [Snippet.head?_written])
      (by simp [Snippet.getLast?_written]) hline'

/-- A snippet with two tags of one kind. -/
def repeatedTag : Text :=
  "//<snippet>\n//<student>\n//a\n//</student>\n//<student>\n//b\n//</student>\n//</snippet>".toList

/-- The first tag is kept, and of the second there is no line. -/
theorem render_keeps_first_blocks_repeatedTag : ∃ d nodes bodies,
    Document.parse repeatedTag = .ok d ∧ parseForest repeatedTag = .ok nodes ∧
      d.render ⟨.fullStudent, none, false⟩ = .ok bodies.flatten ∧
      List.Forall₂ (Rewrites repeatedTag) nodes bodies ∧
      (∃ line' ∈ Text.lines bodies.flatten, SameUpToMark "//a".toList line') ∧
      ∀ line' ∈ Text.lines bodies.flatten, ¬ SameUpToMark "//b".toList line' := by
  let d : Document := ⟨repeatedTag, [.snippet ⟨[], none, some ⟨["//a".toList], false⟩, none, none⟩]⟩
  have h : Document.parse repeatedTag = .ok d := by decide +kernel
  have hu : d.render ⟨.fullStudent, none, false⟩ =
    .ok "//<snippet>\n//<student>\na\n//</student>\n//</snippet>".toList := by decide +kernel
  obtain ⟨nodes, bodies, hn, hr, hb, -⟩ :=
    render_keeps_first_blocks h (o := ⟨.fullStudent, none, false⟩) rfl
  refine ⟨d, nodes, bodies, h, hn, hr, hb, ?_⟩
  rw [hu, Except.ok.injEq] at hr
  rw [← hr]
  decide +kernel

end Handout
