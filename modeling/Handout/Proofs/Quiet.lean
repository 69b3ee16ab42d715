/-
# Blocks that bring no markers of their own

A marker ends at a `>` and nothing is carried over it, so the markers of a text up
to a `>` and those behind it add up (`scan_append_gt`, `length_markers_append`). A
rendered block stands between an opening and a closing marker, which are always
found; it has exactly these two if it is quiet, and more otherwise
(`length_markers_variantMarkup`).

A block that a rendering leaves in its state is quiet (`quiet_of_same_state`). It
was read from a plain text, and neither trimming nor writing every line break as a
line feed makes a marker (`Plain.of_append`, `plain_unifyBreaks`).

Key definitions: `startLine`, `Quiet`, `closes`.
Key theorems: `scan_append_gt`, `plain_unifyBreaks`, `quiet_of_same_state`,
`length_markers_variantMarkup`.
-/
import Handout.Proofs.Reading
import Handout.Text.Line

namespace Handout

open Marker

/-! ### Markers up to a `>` and behind it -/

namespace Marker

theorem scan_append_gt (next : Text) : ∀ (t : Text) (s covered : Nat), covered ≤ t.length + 1 →
    scan s covered (t ++ '>' :: next) =
      scan s covered (t ++ ['>']) ++ scan (s + t.length + 1) 0 next
  | [], s, covered, h => by
    have h1 := marksAt_cons (c := '>') (by decide) next
    have h2 := marksAt_cons (c := '>') (by decide) []
    rw [List.nil_append, List.nil_append, scan_cons, scan_cons, closing?_eq_none h1,
      closing?_eq_none h2]
    simp only [List.length_nil] at h
    match covered, h with
    | 0, _ =>
      simp only
      rw [opening?_eq_none h1, opening?_eq_none h2]
      rfl
    | 1, _ => rfl
  | c :: t, s, covered, h => by
    have hgt : '>' ∈ c :: (t ++ ['>']) := by simp
    have hq : c :: (t ++ '>' :: next) = c :: (t ++ ['>']) ++ next := by simp
    have hlen : s + (c :: t).length + 1 = s + 1 + t.length + 1 := by rw [List.length_cons]; omega
    rw [List.length_cons] at h
    rw [List.cons_append, List.cons_append, scan_cons, scan_cons, hq, closing?_append hgt,
      opening?_append hgt, hlen]
    split
    · rw [scan_append_gt next t (s + 1) (covered - 1) (by omega)]
      rfl
    · cases covered with
      | succ rest => exact scan_append_gt next t (s + 1) rest (by omega)
      | zero =>
        simp only
        split
        · rename_i m hm
          have hm : m.length - 1 ≤ t.length + 1 := by
            obtain ⟨-, -, hl, r, hr⟩ := exists_of_opening? hm
            have := congrArg List.length hr
            simp only [List.length_cons, List.length_append, List.length_nil] at this
            omega
          rw [scan_append_gt next t (s + 1) (m.length - 1) hm]
          rfl
        · exact scan_append_gt next t (s + 1) 0 (by omega)

end Marker

/-- The markers up to a `>` and those behind it add up. -/
theorem length_markers_append (t next : Text) :
    (markers (t ++ '>' :: next)).length = (markers (t ++ ['>'])).length + (markers next).length := by
  rw [markers, markers, markers, scan_append_gt next t 0 0 (by omega), List.length_append,
    length_scan (0 + t.length + 1) 0]

theorem length_markers_silent {t next : Text} (h : Silent t next) :
    (markers (t ++ next)).length = (markers next).length := by
  rw [markers, markers, scan_silent h, length_scan (0 + t.length) 0]

theorem length_markers_opening {w g : Text} (h : IsOpening w g) (hs : ¬ Swallows g) (next : Text) :
    (markers (openingText w g ++ next)).length = (markers next).length + 1 := by
  rw [markers, markers, scan_opening h hs, List.length_cons, length_scan (0 + _) 0]

theorem length_markers_closing {w : Text} (h : IsName w) (next : Text) :
    (markers (closingText w ++ next)).length = (markers next).length + 1 := by
  rw [markers, markers, scan_closing h, List.length_cons, length_scan (0 + _) 0]

/-! ### Plain texts stay plain -/

theorem Plain.of_append {a v : Text} (hv : '>' ∉ v) (h : Plain (a ++ v)) : Plain a := by
  intro q hq h0
  obtain ⟨b, rfl⟩ := hq
  have hp := h (q ++ v) ⟨b, by rw [List.append_assoc]⟩ (by simp [h0])
  rw [Bool.eq_false_iff]
  intro hm
  by_cases hgt : '>' ∈ q
  · rw [List.append_assoc, marksAt_append hgt] at hp
    rw [marksAt_append hgt, hp] at hm
    cases hm
  · obtain ⟨w, g, hw, -, -, rfl⟩ := open_end_of_marksAt hgt hm
    obtain ⟨c, w', rfl⟩ := List.exists_cons_of_ne_nil hw.ne_nil
    have := marksAt_word_end (t := w' ++ g ++ v) (hw.word c (List.mem_cons_self ..))
      (by simp at hgt ⊢; tauto)
    simp only [List.cons_append, List.append_assoc] at this hp
    rw [this] at hp
    cases hp

/-- Does a `>` come that does not directly follow a slash? The first one counts,
and `before` is the character before the text. -/
def closes (before : Char) : Text → Bool
  | [] => false
  | c :: r => if c = '>' then before ≠ '/' else closes c r

theorem closes_iff : ∀ {t : Text} {before : Char}, closes before t = true ↔
    ∃ g r, t = g ++ '>' :: r ∧ '>' ∉ g ∧ (before :: g).getLast? ≠ some '/'
  | [], _ => by simp [closes]
  | c :: t, before => by
    rw [closes]
    split_ifs with hc
    · subst hc
      simp only [ne_eq, decide_not, Bool.not_eq_true', decide_eq_false_iff_not]
      constructor
      · exact fun h => ⟨[], t, rfl, by simp, by simpa using h⟩
      · rintro ⟨g, r, hg, hgt, hl⟩
        cases g with
        | nil => simpa using hl
        | cons d g =>
          simp only [List.cons_append, List.cons.injEq] at hg
          simp [← hg.1] at hgt
    · rw [closes_iff]
      constructor
      · rintro ⟨g, r, rfl, hgt, hl⟩
        exact ⟨c :: g, r, rfl, by simp [Ne.symm hc, hgt], by rwa [List.getLast?_cons_cons]⟩
      · rintro ⟨g, r, hg, hgt, hl⟩
        cases g with
        | nil =>
          simp only [List.nil_append, List.cons.injEq] at hg
          exact absurd hg.1 hc
        | cons d g =>
          simp only [List.cons_append, List.cons.injEq] at hg
          obtain ⟨rfl, rfl⟩ := hg
          exact ⟨g, r, rfl, fun hm => hgt (List.mem_cons_of_mem _ hm),
            by rwa [List.getLast?_cons_cons] at hl⟩

theorem closes_congr {a b : Char} (ha : a ≠ '/') (hb : b ≠ '/') (t : Text) :
    closes a t = closes b t := by
  cases t with
  | nil => rfl
  | cons c r => simp [closes, ha, hb]

/-- Joined by line feeds, the lines of a text have its line breaks written as
line feeds. -/
theorem joinWith_lines_eq_unifyBreaks (t : Text) :
    Text.joinWith ['\n'] t.lines = unifyBreaks t := by
  fun_induction Text.lines t with
  | case1 => rfl
  | case2 r ih =>
    rw [Text.joinWith_nil_cons _ (Text.lines_ne_nil r), ih, unifyBreaks]
    rfl
  | case3 r hr ih =>
    rw [Text.joinWith_nil_cons _ (Text.lines_ne_nil r), ih, unifyBreaks]
    · rfl
    · exact hr
  | case4 r ih =>
    rw [Text.joinWith_nil_cons _ (Text.lines_ne_nil r), ih, unifyBreaks]
    · rfl
    · simp
    · simp
  | case5 c r h1 h2 _ ih =>
    rw [Text.joinWith_consHead _ _ (Text.lines_ne_nil r), ih, unifyBreaks]
    · exact h1
    · exact h2

/-- Writing line breaks as line feeds does not matter to the next `>`. -/
theorem closes_unifyBreaks (t next : Text) : ∀ before : Char,
    closes before (unifyBreaks t ++ next) = closes before (t ++ next) := by
  fun_induction unifyBreaks t with
  | case1 => intro before; rfl
  | case2 r ih => intro before; simp [closes, ih]
  | case3 r _ ih =>
    intro before
    simpa [closes, ih] using closes_congr (by decide) (by decide) _
  | case4 c r _ _ ih => intro before; simp [closes, ih]

/-- The front of a text up to a line break is kept. -/
theorem exists_of_unifyBreaks : ∀ {a t x : Text}, '\n' ∉ a →
    unifyBreaks t ++ ['\n', '>'] = a ++ x →
    ∃ t', t = a ++ t' ∧ x = unifyBreaks t' ++ ['\n', '>']
  | [], t, x, _, h => ⟨t, rfl, h.symm⟩
  | c :: a, t, x, hn, h => by
    have hc : '\n' ≠ c := fun e => hn (e ▸ List.mem_cons_self ..)
    revert h
    fun_cases unifyBreaks t with
    | case1 =>
      intro h
      simp only [List.nil_append, List.cons_append, List.cons.injEq] at h
      exact absurd h.1 hc
    | case2 r | case3 r =>
      intro h
      simp only [List.cons_append, List.cons.injEq] at h
      exact absurd h.1 hc
    | case4 d r =>
      intro h
      simp only [List.cons_append, List.cons.injEq] at h
      obtain ⟨rfl, h⟩ := h
      obtain ⟨t', rfl, ht⟩ := exists_of_unifyBreaks (fun hm => hn (List.mem_cons_of_mem _ hm)) h
      exact ⟨t', rfl, ht⟩

/-- What follows the `//<` of a marker: a word and a `>` that closes it, or a slash,
a name and a `>`. -/
theorem marksAt_mark_iff {x : Text} : marksAt ('/' :: '/' :: '<' :: x) = true ↔
    (∃ c, x.head? = some c ∧ isWord c = true) ∧ closes '<' x = true ∨
      ∃ w r, IsName w ∧ x = '/' :: (w ++ '>' :: r) := by
  rw [marksAt_iff]
  refine or_congr ?_ ?_
  · constructor
    · rintro ⟨w, g, r, hw, he⟩
      obtain ⟨c, w', rfl⟩ := List.exists_cons_of_ne_nil hw.isName.ne_nil
      simp only [openingText_eq, List.cons_append, List.append_assoc, List.nil_append,
        List.cons.injEq, true_and] at he
      subst he
      refine ⟨⟨c, rfl, hw.isName.word c (List.mem_cons_self ..)⟩, closes_iff.mpr ⟨c :: (w' ++ g), r,
        by simp, ?_, ?_⟩⟩
      · exact fun hm => hw.front_not_mem (by simp at hm ⊢; tauto)
      · intro hl
        by_cases hg : g = []
        · rw [hg, List.append_nil, List.getLast?_cons_cons] at hl
          exact hw.isName.not_mem (c := '/') (by decide) (List.mem_of_getLast? hl)
        · rw [← List.cons_append, ← List.cons_append, List.getLast?_append_of_ne_nil _ hg] at hl
          exact hw.last hl
    · rintro ⟨⟨c, hc, hword⟩, hcl⟩
      obtain ⟨g, r, rfl, hgt, hl⟩ := closes_iff.mp hcl
      have hwa := Text.word_append_afterWord g
      cases g with
      | nil =>
        simp only [List.nil_append, List.head?_cons, Option.some.injEq] at hc
        simp [← hc, show isWord '>' = false by decide] at hword
      | cons d g =>
        simp only [List.cons_append, List.head?_cons, Option.some.injEq] at hc
        subst hc
        refine ⟨Text.word (d :: g), Text.afterWord (d :: g), r, ⟨⟨by simp [Text.word, hword],
          fun _ => Text.isWord_of_mem_word⟩, fun _ => Text.head_afterWord, fun hm => ?_,
          fun hm => ?_⟩, ?_⟩
        · exact hgt (hwa ▸ List.mem_append_right _ hm)
        · apply hl
          have h0 : Text.afterWord (d :: g) ≠ [] := by rintro h0; simp [h0] at hm
          rw [List.getLast?_cons_cons, ← hwa, List.getLast?_append_of_ne_nil _ h0, hm]
        · rw [openingText_append, hwa]
          rfl
  · constructor
    · rintro ⟨w, r, hw, he⟩
      exact ⟨w, r, hw, by simpa [closingText_eq] using he⟩
    · rintro ⟨w, r, hw, rfl⟩
      exact ⟨w, r, hw, by simp [closingText_eq]⟩

theorem marksAt_of_unifyBreaks {t : Text} (h : marksAt (unifyBreaks t ++ ['\n', '>']) = true) :
    marksAt (t ++ ['\n', '>']) = true := by
  obtain ⟨x, hx⟩ := slashes_of_marksAt h
  obtain ⟨t', rfl, rfl⟩ := exists_of_unifyBreaks (a := ['/', '/', '<']) (by decide) hx
  rw [hx, marksAt_mark_iff] at h
  refine marksAt_mark_iff.mpr ?_
  rcases h with ⟨⟨c, hc, hword⟩, hcl⟩ | ⟨w, r, hw, he⟩
  · left
    obtain ⟨y, hy⟩ : ∃ y, unifyBreaks t' ++ ['\n', '>'] = [c] ++ y := by
      cases hu : unifyBreaks t' ++ ['\n', '>'] with
      | nil => simp at hu
      | cons d y =>
        rw [hu, List.head?_cons, Option.some.injEq] at hc
        exact ⟨y, by rw [hc]; rfl⟩
    have hn : '\n' ∉ [c] := by
      rw [List.mem_singleton]
      rintro rfl
      simp [show isWord '\n' = false by decide] at hword
    obtain ⟨r, rfl, -⟩ := exists_of_unifyBreaks hn hy
    refine ⟨⟨c, rfl, hword⟩, ?_⟩
    rwa [closes_unifyBreaks] at hcl
  · right
    have hn : '\n' ∉ '/' :: (w ++ ['>']) := by
      simp [hw.not_mem (c := '\n') (by decide)]
    obtain ⟨r', rfl, -⟩ := exists_of_unifyBreaks hn (x := r) (by rw [he]; simp)
    exact ⟨w, r' ++ ['\n', '>'], hw, by simp⟩

/-- Writing line breaks as line feeds makes no marker. -/
theorem plain_unifyBreaks (t : Text) : Plain t → Plain (unifyBreaks t) := by
  fun_induction unifyBreaks t with
  | case1 => exact id
  | case2 r ih =>
    intro h
    exact silent_cons.mpr ⟨marksAt_cons (by decide) _, ih (h.of_suffix ⟨['\r', '\n'], rfl⟩)⟩
  | case3 r _ ih =>
    intro h
    exact silent_cons.mpr ⟨marksAt_cons (by decide) _, ih (h.of_suffix (List.suffix_cons _ _))⟩
  | case4 c r h1 h2 ih =>
    intro h
    refine silent_cons.mpr ⟨?_, ih (h.of_suffix (List.suffix_cons _ _))⟩
    rw [Bool.eq_false_iff]
    intro hm
    have hu : unifyBreaks (c :: r) = c :: unifyBreaks r := unifyBreaks.eq_4 c r h1 h2
    have hm' := marksAt_of_unifyBreaks (t := c :: r) (by rw [hu]; exact hm)
    rw [h _ (List.suffix_refl _) (by simp)] at hm'
    cases hm'

/-! ### Quiet blocks -/

theorem isBlank_of_isInlineBlank {c : Char} (h : isInlineBlank c = true) : isBlank c = true := by
  simp only [isInlineBlank, Bool.and_eq_true] at h
  exact h.1.1

theorem unbroken_of_isInlineBlank {t : Text} (h : ∀ c ∈ t, isInlineBlank c = true) :
    Unbroken t := by
  intro c hc
  have := h c hc
  simp only [isInlineBlank, Bool.and_eq_true, bne_iff_ne, ne_eq] at this
  exact ⟨this.1.2, this.2⟩

theorem allBlank_of_isInlineBlank {t : Text} (h : ∀ c ∈ t, isInlineBlank c = true) : AllBlank t :=
  fun c hc => isBlank_of_isInlineBlank (h c hc)

/-- A new line, indented. -/
def startLine (indentation : Text) : Text :=
  '\n' :: indentation

theorem startLine_allBlank {indentation : Text} (hi : AllBlank indentation) :
    AllBlank (startLine indentation) := by
  intro c hc
  rcases List.mem_cons.mp hc with rfl | hc
  · decide
  · exact hi c hc

theorem not_mem_of_allBlank {t : Text} (h : AllBlank t) {c : Char} (hc : isBlank c = false) :
    c ∉ t := by
  intro hm
  simp [h c hm] at hc

theorem silent_startLine {indentation : Text} (hi : AllBlank indentation) (next : Text) :
    Silent (startLine indentation) next :=
  silent_of_no_slash (not_mem_of_allBlank (startLine_allBlank hi) (by decide)) next

/-- No marker begins in a block when it stands on lines of its own. -/
def Quiet (indentation block : Text) : Prop :=
  Plain (startLine indentation ++ block ++ startLine indentation)

theorem quiet_of_plain {indentation block : Text} (hi : AllBlank indentation) (h : Plain block) :
    Quiet indentation block := by
  refine Silent.append (Silent.append (silent_startLine hi _) ?_) (silent_startLine hi _)
  exact h.silent (breaks_feed _)

/-- A text without the front of a marker is plain. -/
theorem plain_of_no_mark {t : Text} (h : ¬ ['/', '/', '<'] <:+: t) : Plain t := by
  intro q hq h0
  rw [Bool.eq_false_iff]
  intro hm
  obtain ⟨r, hr⟩ := slashes_of_marksAt hm
  obtain ⟨a, rfl⟩ := hq
  match q, h0, hr with
  | [c], _, hr => simp at hr
  | [c, d], _, hr => simp at hr
  | c :: d :: e :: q, _, hr =>
    simp only [List.cons_append, List.cons.injEq] at hr
    obtain ⟨rfl, rfl, rfl, -⟩ := hr
    exact h ⟨a, q, by simp⟩

theorem plain_strip {t : Text} (h : Plain t) : Plain t.strip := by
  obtain ⟨w, v, -, hv, ht⟩ := Text.exists_strip t
  rw [ht, List.append_assoc] at h
  exact (h.of_suffix (List.suffix_append _ _)).of_append (not_mem_of_allBlank hv (by decide))

/-- Blanks at the ends of a text make no marker. -/
theorem plain_of_strip {t : Text} (h : Plain t.strip) : Plain t := by
  obtain ⟨w, v, hw, hv, ht⟩ := Text.exists_strip t
  have hbreak : Breaks (v ++ ['\n', '>']) := by
    cases v with
    | nil => exact breaks_feed _
    | cons c v => exact .inl ⟨c, rfl, hv c (List.mem_cons_self ..)⟩
  rw [ht]
  refine Silent.append (Silent.append ?_ (h.silent hbreak)) ?_
  · exact silent_of_no_slash (not_mem_of_allBlank hw (by decide)) _
  · exact silent_of_no_slash (not_mem_of_allBlank hv (by decide)) _

/-- The lines of a variant that was read from a plain text make no marker. -/
theorem plain_joinWith_ofBlock {raw : Text} (h : Plain raw) :
    Plain (Text.joinWith ['\n'] (Variant.ofBlock raw).lines) := by
  rw [Variant.ofBlock_eq]
  by_cases h0 : raw.strip = []
  · rw [if_pos h0]
    exact Silent.nil _
  · rw [if_neg h0]
    simp only [Variant.ofLines]
    rw [joinWith_lines_eq_unifyBreaks]
    exact plain_unifyBreaks _ (plain_strip h)

/-- A block that stays in its state is quiet. -/
theorem quiet_of_same_state {indentation raw : Text} (hi : AllBlank indentation) (h : Plain raw)
    {wantLive : Bool} (hl : (Variant.ofBlock raw).live = wantLive) :
    Quiet indentation ((Variant.ofBlock raw).shown wantLive indentation) := by
  have hs : (Variant.ofBlock raw).shown wantLive indentation =
      Text.joinWith ['\n'] (Variant.ofBlock raw).lines := by
    unfold Variant.shown Variant.shownLines
    rw [hl]
    cases wantLive <;> rfl
  rw [hs]
  exact quiet_of_plain hi (plain_joinWith_ofBlock h)

theorem Kind.isName (k : Kind) : IsName k.name :=
  .of_all (by cases k <;> decide) (by cases k <;> decide)

theorem isOpening_nil {w : Text} (h : IsName w) : IsOpening w [] :=
  ⟨h, by simp, by simp, by simp⟩

theorem not_swallows_nil : ¬ Swallows [] := by
  rintro ⟨b, v, -, h⟩
  simp at h

theorem variantMarkup_eq (indentation : Text) (k : Kind) (block next : Text) :
    variantMarkup indentation k block ++ next = indentation ++ (openingText k.name [] ++
      ((startLine indentation ++ block ++ startLine indentation) ++
        (closingText k.name ++ '\n' :: next))) := by
  simp [variantMarkup, startLine]

/-- The markers around a block are found whatever it holds, and no others
exactly when it is quiet. -/
theorem length_markers_variantMarkup {indentation : Text} (hi : AllBlank indentation) (k : Kind)
    (block : Text) : 2 ≤ (markers (variantMarkup indentation k block)).length ∧
      ((markers (variantMarkup indentation k block)).length = 2 ↔ Quiet indentation block) := by
  have hm := variantMarkup_eq indentation k block []
  rw [List.append_nil] at hm
  rw [hm, length_markers_silent (silent_of_no_slash (not_mem_of_allBlank hi (by decide)) _),
    length_markers_opening (isOpening_nil k.isName) not_swallows_nil]
  have hend : (markers (closingText k.name ++ ['\n'])).length = 1 := by
    rw [length_markers_closing k.isName]
    rfl
  have hmark := marksAt_closingText k.isName ['\n']
  rcases silent_or_scan (closingText k.name ++ ['\n'])
    (startLine indentation ++ block ++ startLine indentation) 0 with h | ⟨m, l, covered, h⟩
  · rw [length_markers_silent h, hend]
    exact ⟨le_rfl, fun _ => h.plain hmark, fun _ => rfl⟩
  · -- a marker inside the block, and the closing one after it
    obtain ⟨l', hl'⟩ := scan_closing_covered k.isName
      (0 + (startLine indentation ++ block ++ startLine indentation).length) covered ['\n']
    have hlen : 2 ≤ (markers ((startLine indentation ++ block ++ startLine indentation) ++
        (closingText k.name ++ ['\n']))).length := by
      rw [markers, h, hl']
      simp only [List.length_cons, List.length_append]
      omega
    refine ⟨by omega, fun h2 => by omega, fun hq => ?_⟩
    rw [length_markers_silent (hq.silent (breaks_of_marksAt hmark)), hend]

theorem length_markers_variantMarkup_append (indentation : Text) (k : Kind) (block next : Text) :
    (markers (variantMarkup indentation k block ++ next)).length =
      (markers (variantMarkup indentation k block)).length + (markers next).length := by
  have hn : ∀ rest, (markers ('\n' :: rest)).length = (markers rest).length := fun rest =>
    length_markers_silent (t := ['\n']) (silent_of_no_slash (by decide) rest)
  have hv : ∀ rest, variantMarkup indentation k block ++ rest = (indentation ++
      openingText k.name [] ++ (startLine indentation ++ block ++ startLine indentation) ++
        ('/' :: '/' :: '<' :: '/' :: k.name)) ++ '>' :: '\n' :: rest := by
    intro rest
    rw [variantMarkup_eq, closingText_append]
    simp
  have h1 := hv next
  have h2 := hv []
  rw [List.append_nil] at h2
  rw [h1, h2, length_markers_append, length_markers_append _ ['\n'], hn, hn]
  rfl

end Handout
