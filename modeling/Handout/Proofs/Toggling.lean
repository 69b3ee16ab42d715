/-
# Bringing a block into a comment state

A variant that was read from a text counts as live exactly when one of its
lines is, so taking its comment marks never fails (`render_ofLines`): the text
it shows is `Variant.shown`. A block that is commented out has no live line
(`shownLines_false_not_live`) and is as trimmed as before (`strip_shown_false`).

Reading a shown block and showing it in the same state gives the trimmed block,
or, if the block should be live and is not, something shorter. So the second
showing is never longer than the first, and as long only if the block is steady and
the showing the same (`length_shown_ofBlock_le`, `steady_of_length`,
`shown_of_steady`).

Key definitions: `bareLine`, `Variant.shown`, `Variant.Steady`.
Key theorems: `render_ofLines`, `strip_shown_false`, `shown_ofBlock`,
`shown_of_steady`, `steady_of_length`.
-/
import Handout.Proofs.Trimming
import Handout.Variant.Basic

namespace Handout

/-! ### Lines -/

theorem leading_append_content (line : Text) : leading line ++ content line = line :=
  List.takeWhile_append_dropWhile

theorem leading_allBlank (line : Text) : AllBlank (leading line) :=
  fun _ hc => List.mem_takeWhile_imp hc

theorem content_append_blank {w : Text} (hw : AllBlank w) (t : Text) :
    content (w ++ t) = content t :=
  List.dropWhile_append_of_pos hw

/-- A line that begins with its code has no leading blanks. -/
theorem content_eq_self {line : Text} {c : Char} (h : line.head? = some c)
    (hc : isBlank c = false) : leading line = [] ∧ content line = line := by
  cases line with
  | nil => simp at h
  | cons d r =>
    simp only [List.head?_cons, Option.some.injEq] at h
    subst h
    simp [leading, content, hc]

theorem commentMark_content (t : Text) : content (commentMark ++ t) = commentMark ++ t := by
  have : isBlank '/' = false := by decide
  simp [content, commentMark, this]

/-- A comment mark after blanks makes a line that is not live. -/
theorem isLive_blank_mark {w : Text} (hw : AllBlank w) (t : Text) :
    isLive (w ++ commentMark ++ t) = false := by
  rw [isLive, List.append_assoc, content_append_blank hw, commentMark_content]
  simp [commentMark]

theorem isLive_commentLine {indentation : Text} (hi : AllBlank indentation) (line : Text) :
    isLive (commentLine indentation line) = false := by
  unfold commentLine
  split_ifs with h0 hp
  · simp [isLive, h0]
  · rw [List.append_assoc]
    exact isLive_blank_mark hi _
  · exact isLive_blank_mark (leading_allBlank line) _

theorem unbroken_commentMark : Unbroken commentMark := by
  intro c hc
  simp only [commentMark, List.mem_cons, List.not_mem_nil, or_false, or_self] at hc
  subst hc
  decide

theorem unbroken_commentLine {indentation line : Text} (hi : Unbroken indentation)
    (hl : Unbroken line) : Unbroken (commentLine indentation line) := by
  have h1 : Unbroken (leading line) := hl.of_sublist (List.takeWhile_sublist _)
  have h2 : Unbroken (content line) := hl.of_sublist (List.dropWhile_sublist _)
  unfold commentLine
  split_ifs
  · exact hl
  · exact ((hi.append unbroken_commentMark).append (h1.of_sublist (List.drop_sublist _ _))).append h2
  · exact (h1.append unbroken_commentMark).append h2

/-- A line without one comment mark, if it is not blank. -/
def bareLine (line : Text) : Text :=
  if (content line).isEmpty then line else leading line ++ (content line).drop commentMark.length

theorem unbroken_bareLine {line : Text} (hl : Unbroken line) : Unbroken (bareLine line) := by
  have h1 : Unbroken (leading line) := hl.of_sublist (List.takeWhile_sublist _)
  have h2 : Unbroken (content line) := hl.of_sublist (List.dropWhile_sublist _)
  unfold bareLine
  split_ifs
  · exact hl
  · exact h1.append (h2.of_sublist (List.drop_sublist _ _))

theorem length_bareLine_le (line : Text) : (bareLine line).length ≤ line.length := by
  unfold bareLine
  split_ifs
  · exact Nat.le_refl _
  · have := congrArg List.length (leading_append_content line)
    simp only [List.length_append, List.length_drop] at this ⊢
    omega

theorem length_bareLine_lt {line : Text} (h : content line ≠ []) :
    (bareLine line).length < line.length := by
  unfold bareLine
  rw [if_neg (by simpa using h)]
  have h1 := congrArg List.length (leading_append_content line)
  have h2 := List.length_pos_iff.mpr h
  simp only [List.length_append, List.length_drop, commentMark, List.length_cons,
    List.length_nil] at h1 ⊢
  omega

theorem uncommentLine_eq {line : Text} (h : isLive line = false) :
    uncommentLine line = .ok (bareLine line) := by
  unfold uncommentLine bareLine
  by_cases h0 : (content line).isEmpty = true
  · rw [if_pos h0, if_pos h0]
  · rw [if_neg h0, if_neg h0, if_pos]
    simpa [isLive, h0] using h

theorem uncommentLines_eq : ∀ {lines : List Text}, lines.any isLive = false →
    uncommentLines lines = .ok (lines.map bareLine)
  | [], _ => rfl
  | line :: r, h => by
    simp only [List.any_cons, Bool.or_eq_false_iff] at h
    rw [uncommentLines, uncommentLine_eq h.1, uncommentLines_eq h.2]
    rfl

/-! ### Blocks -/

namespace Variant

/-- The lines of a variant in the wanted state. -/
def shownLines (v : Variant) (wantLive : Bool) (indentation : Text) : List Text :=
  match wantLive, v.live with
  | false, true => v.lines.map (commentLine indentation)
  | true, false => v.lines.map bareLine
  | _, _ => v.lines

/-- The text of a variant in the wanted state. -/
def shown (v : Variant) (wantLive : Bool) (indentation : Text) : Text :=
  Text.joinWith ['\n'] (v.shownLines wantLive indentation)

/-- A variant that is live exactly when one of its lines is can be brought into
either state. -/
theorem render_ofLines (ls : List Text) (wantLive : Bool) (indentation : Text) :
    (ofLines ls).render wantLive indentation = .ok ((ofLines ls).shown wantLive indentation) := by
  unfold render shown shownLines
  cases wantLive <;> cases hl : (ofLines ls).live
  · rfl
  · rfl
  · simp only
    have hany : (ofLines ls).lines.any isLive = false := hl
    rw [uncommentLines_eq hany]
    rfl
  · rfl

theorem ofBlock_eq (block : Text) :
    ofBlock block = ofLines (if block.strip = [] then [] else block.strip.lines) := by
  unfold ofBlock
  split_ifs <;> rfl

/-- A variant read from a text can be brought into either state. -/
theorem render_ofBlock (block : Text) (wantLive : Bool) (indentation : Text) :
    (ofBlock block).render wantLive indentation =
      .ok ((ofBlock block).shown wantLive indentation) := by
  rw [ofBlock_eq]
  exact render_ofLines _ _ _

theorem live_ofBlock (block : Text) : (ofBlock block).live = (ofBlock block).lines.any isLive := by
  rw [ofBlock_eq]
  rfl

theorem ofBlock_unbroken (block : Text) : ∀ l ∈ (ofBlock block).lines, Unbroken l := by
  rw [ofBlock_eq]
  intro l hl
  by_cases h : block.strip = []
  · simp [h, ofLines] at hl
  · simp only [ofLines, h, ↓reduceIte] at hl
    exact Text.lines_unbroken _ l hl

theorem ofBlock_trimmed (block : Text) : TrimmedLines (ofBlock block).lines := by
  rw [ofBlock_eq]
  by_cases h : block.strip = []
  · simp [TrimmedLines, ofLines, h]
  · simpa [ofLines, h] using Text.trimmedLines_strip block h

/-- Blanks around a block are not part of the variant in it. -/
theorem ofBlock_around {w v : Text} (hw : AllBlank w) (hv : AllBlank v) (block : Text) :
    ofBlock (w ++ block ++ v) = ofBlock block := by
  rw [ofBlock_eq, ofBlock_eq, Text.strip_around hw hv]

theorem shownLines_unbroken {indentation : Text} (hi : Unbroken indentation) (block : Text)
    (wantLive : Bool) : ∀ l ∈ (ofBlock block).shownLines wantLive indentation, Unbroken l := by
  have hv := ofBlock_unbroken block
  intro l hl
  unfold shownLines at hl
  split at hl
  · obtain ⟨x, hx, rfl⟩ := List.mem_map.mp hl
    exact unbroken_commentLine hi (hv x hx)
  · obtain ⟨x, hx, rfl⟩ := List.mem_map.mp hl
    exact unbroken_bareLine (hv x hx)
  · exact hv l hl

/-- A block that is commented out has no live line. -/
theorem shownLines_false_not_live {indentation : Text} (hi : AllBlank indentation) (block : Text) :
    ((ofBlock block).shownLines false indentation).any isLive = false := by
  unfold shownLines
  cases hl : (ofBlock block).live
  · simpa [live_ofBlock] using hl
  · simp only [List.any_map, List.any_eq_false, Function.comp_apply, Bool.not_eq_true]
    exact fun l _ => isLive_commentLine hi l

end Variant

/-! ### Trimmed blocks stay trimmed under comment marks -/

theorem getLast?_content {line : Text} {c : Char} (h : line.getLast? = some c)
    (hc : isBlank c = false) : (content line).getLast? = some c := by
  by_cases h0 : content line = []
  · have hl := leading_append_content line
    rw [h0, List.append_nil] at hl
    have hm : c ∈ leading line := by rw [hl]; exact List.mem_of_getLast? h
    simp [leading_allBlank line c hm] at hc
  · rw [← leading_append_content line, List.getLast?_append_of_ne_nil _ h0] at h
    exact h

theorem commentLine_head {line : Text} {c : Char} (h : line.head? = some c)
    (hc : isBlank c = false) (indentation : Text) :
    (commentLine indentation line).head? = some '/' := by
  obtain ⟨h1, h2⟩ := content_eq_self h hc
  have h0 : line ≠ [] := by rintro rfl; simp at h
  unfold commentLine
  rw [h1, h2, if_neg (by simpa using h0)]
  split_ifs with hp
  · have : indentation = [] := by simpa using hp
    rw [this]
    rfl
  · rfl

theorem commentLine_getLast {line : Text} {c : Char} (h : line.getLast? = some c)
    (hc : isBlank c = false) (indentation : Text) :
    (commentLine indentation line).getLast? = some c := by
  have hl := getLast?_content h hc
  have h0 : content line ≠ [] := by intro h0; simp [h0] at hl
  unfold commentLine
  rw [if_neg (by simpa using h0)]
  split_ifs
  · rw [List.getLast?_append_of_ne_nil _ h0, hl]
  · rw [List.getLast?_append_of_ne_nil _ h0, hl]

theorem TrimmedLines.map_commentLine {ls : List Text} (h : TrimmedLines ls) (indentation : Text) :
    TrimmedLines (ls.map (commentLine indentation)) := by
  constructor
  · intro l hl
    rw [List.head?_map, Option.map_eq_some_iff] at hl
    obtain ⟨x, hx, rfl⟩ := hl
    obtain ⟨c, hc, hb⟩ := h.1 x hx
    exact ⟨'/', commentLine_head hc hb indentation, by decide⟩
  · intro l hl
    rw [List.getLast?_map, Option.map_eq_some_iff] at hl
    obtain ⟨x, hx, rfl⟩ := hl
    obtain ⟨c, hc, hb⟩ := h.2 x hx
    exact ⟨c, commentLine_getLast hc hb indentation, hb⟩

namespace Variant

/-- A block shown as comments is trimmed. -/
theorem strip_shown_false (block indentation : Text) :
    ((ofBlock block).shown false indentation).strip = (ofBlock block).shown false indentation := by
  apply Text.strip_joinWith
  unfold shownLines
  cases (ofBlock block).live
  · exact ofBlock_trimmed block
  · exact (ofBlock_trimmed block).map_commentLine indentation

/-! ### Reading a shown block again -/

theorem shown_no_return {indentation : Text} (hi : Unbroken indentation) (block : Text)
    (wantLive : Bool) : '\r' ∉ (ofBlock block).shown wantLive indentation :=
  Text.not_mem_joinWith (by decide) fun l hl hr =>
    (shownLines_unbroken hi block wantLive l hl '\r' hr).1 rfl

/-- The lines of a block without carriage returns are the trimmed block. -/
theorem joinWith_ofBlock {block : Text} (h : '\r' ∉ block) :
    Text.joinWith ['\n'] (ofBlock block).lines = block.strip := by
  obtain ⟨w, v, -, -, hb⟩ := Text.exists_strip block
  rw [ofBlock_eq]
  by_cases h0 : block.strip = []
  · simp [ofLines, h0, Text.joinWith]
  · simp only [ofLines, h0, ↓reduceIte]
    apply Text.joinWith_lines
    intro hr
    apply h
    rw [hb]
    exact List.mem_append_left _ (List.mem_append_right _ hr)

theorem ofBlock_lines_eq_nil {block : Text} (h : block.strip = []) : (ofBlock block).lines = [] := by
  simp [ofBlock_eq, ofLines, h]

theorem length_joinWith_map_le {f : Text → Text} (hf : ∀ l, (f l).length ≤ l.length) (sep : Text) :
    ∀ ls : List Text, (Text.joinWith sep (ls.map f)).length ≤ (Text.joinWith sep ls).length
  | [] => Nat.le_refl _
  | [l] => hf l
  | l :: m :: ls => by
    have ih := length_joinWith_map_le hf sep (m :: ls)
    have := hf l
    simp only [List.map_cons] at ih ⊢
    simp only [Text.joinWith_cons_cons, List.length_append]
    omega

/-- Taking the comment marks from a block that is not empty makes it shorter. -/
theorem length_bareLines_lt {block : Text} (h0 : block.strip ≠ []) (h : '\r' ∉ block) :
    (Text.joinWith ['\n'] ((ofBlock block).lines.map bareLine)).length < block.strip.length := by
  rw [← joinWith_ofBlock h]
  have ht := (ofBlock_trimmed block).1
  have hne : (ofBlock block).lines ≠ [] := by
    rw [ofBlock_eq]
    simpa [ofLines, h0] using Text.lines_ne_nil _
  cases hls : (ofBlock block).lines with
  | nil => exact absurd hls hne
  | cons l ls =>
    obtain ⟨c, hc, hb⟩ := ht l (by rw [hls]; rfl)
    have hl : (bareLine l).length < l.length := length_bareLine_lt (by
      rw [(content_eq_self hc hb).2]
      rintro rfl
      simp at hc)
    cases ls with
    | nil => exact hl
    | cons m ls =>
      have := length_joinWith_map_le length_bareLine_le ['\n'] (m :: ls)
      simp only [List.map_cons] at this ⊢
      simp only [Text.joinWith_cons_cons, List.length_append]
      omega

/-- A block that is read again is shown trimmed, unless it should be live and
is not. -/
theorem shown_ofBlock {block : Text} (h : '\r' ∉ block) {wantLive : Bool}
    (hl : (ofBlock block).live = wantLive) (indentation : Text) :
    (ofBlock block).shown wantLive indentation = block.strip := by
  rw [← joinWith_ofBlock h]
  unfold shown shownLines
  rw [hl]
  cases wantLive <;> rfl

/-- A block that is read again and shown in the state it was meant to have is
not longer than it was. -/
theorem length_shown_ofBlock_le {block : Text} (h : '\r' ∉ block) {wantLive : Bool}
    (hl : wantLive = false → (ofBlock block).live = false) (indentation : Text) :
    ((ofBlock block).shown wantLive indentation).length ≤ block.length := by
  have hle := Text.length_strip_le block
  by_cases hw : (ofBlock block).live = wantLive
  · rw [shown_ofBlock h hw]
    exact hle
  · cases wantLive with
    | false => exact absurd (hl rfl) hw
    | true =>
      have hf : (ofBlock block).live = false := by simpa using hw
      unfold shown shownLines
      rw [hf]
      have := length_joinWith_map_le length_bareLine_le ['\n'] (ofBlock block).lines
      rw [joinWith_ofBlock h] at this
      exact this.trans hle

theorem live_ofBlock_of_strip {block : Text} (hs : block.strip = block) :
    (ofBlock block).live = (decide (block ≠ []) && block.lines.any isLive) := by
  rw [live_ofBlock, ofBlock_eq, hs]
  by_cases h0 : block = []
  · simp [h0, ofLines]
  · simp [h0, ofLines]

/-- A block that was commented out is not live when it is read again. -/
theorem live_ofBlock_shown_false {indentation : Text} (hu : Unbroken indentation)
    (hi : AllBlank indentation) (block : Text) :
    (ofBlock ((ofBlock block).shown false indentation)).live = false := by
  rw [live_ofBlock_of_strip (strip_shown_false block indentation)]
  by_cases h0 : (ofBlock block).shownLines false indentation = []
  · simp [shown, h0, Text.joinWith]
  · rw [shown, Text.lines_joinWith h0 (shownLines_unbroken hu block false),
      shownLines_false_not_live hi, Bool.and_false]

/-- A block that is trimmed and, if it should be live, is empty or has a live
line. -/
def Steady (wantLive : Bool) (block : Text) : Prop :=
  block.strip = block ∧ (wantLive = true → block = [] ∨ block.lines.any isLive = true)

/-- A steady block that is read again is shown as it was. -/
theorem shown_of_steady {block : Text} (h : '\r' ∉ block) {wantLive : Bool}
    (hl : wantLive = false → (ofBlock block).live = false) (hs : Steady wantLive block)
    (indentation : Text) : (ofBlock block).shown wantLive indentation = block := by
  obtain ⟨hs, hlive⟩ := hs
  by_cases h0 : block = []
  · subst h0
    cases wantLive <;> rfl
  · have hw : (ofBlock block).live = wantLive := by
      cases wantLive with
      | false => exact hl rfl
      | true =>
        rcases hlive rfl with h1 | h1
        · exact absurd h1 h0
        · rw [live_ofBlock_of_strip hs]
          simp [h0, h1]
    rw [shown_ofBlock h hw, hs]

/-- Only a steady block is as long as it was. -/
theorem steady_of_length {block : Text} (h : '\r' ∉ block) {wantLive : Bool}
    (hl : wantLive = false → (ofBlock block).live = false) {indentation : Text}
    (he : ((ofBlock block).shown wantLive indentation).length = block.length) :
    Steady wantLive block := by
  have hle := Text.length_strip_le block
  by_cases hw : (ofBlock block).live = wantLive
  · rw [shown_ofBlock h hw] at he
    have hs := Text.strip_eq_self_of_length he
    refine ⟨hs, fun hwt => ?_⟩
    rw [hwt, live_ofBlock_of_strip hs, Bool.and_eq_true] at hw
    exact .inr hw.2
  · cases wantLive with
    | false => exact absurd (hl rfl) hw
    | true =>
      have hf : (ofBlock block).live = false := by simpa using hw
      unfold shown shownLines at he
      rw [hf] at he
      by_cases h0 : block.strip = []
      · rw [ofBlock_lines_eq_nil h0] at he
        have hb : block = [] := List.eq_nil_of_length_eq_zero he.symm
        exact ⟨hb ▸ h0, fun _ => .inl hb⟩
      · have := length_bareLines_lt h0 h
        simp only at he
        omega

end Variant
end Handout
