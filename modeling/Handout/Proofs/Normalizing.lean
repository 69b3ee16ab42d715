/-
# The normal form of a block

A block is kept as its lines: without the blanks at its ends and without the breaks. There
is one way to read a text as lines with breaks between them, if a return in front of a feed
is one break with it (`separated_iff`): by following the reader such a reading is found, and
by induction on a reading it is what the reader gives.

The lines of a block are trimmed and hold no break, and every list of such lines is the
lines of a block (`Variant.exists_ofBlock_iff`). They are read again from what they make
joined by feeds, with any blanks around it, so two blocks have the same lines exactly if
they differ in the blanks at their ends and in the forms of their breaks, and in nothing
else (`Variant.ofBlock_eq_iff`).

Key definitions: `lineBreaks`, `Separated`.
Key theorems: `separated_iff`, `Variant.exists_ofBlock_iff`, `Variant.ofBlock_eq_iff`,
`Variant.ofBlock_normal_form`.
-/
import Handout.Proofs.Switching

namespace Handout

/-! ### Lines with breaks between them -/

/-- The forms of a line break. -/
def lineBreaks : List Text :=
  [['\r', '\n'], ['\r'], ['\n']]

/-- The text is the lines in their order, with a break between neighbours. A return is no
break of its own in front of a feed. -/
inductive Separated : List Text → Text → Prop
  | last {l : Text} (hl : Unbroken l) : Separated [l] l
  | cons {l b t : Text} {ls : List Text} (hl : Unbroken l) (hb : b ∈ lineBreaks)
      (hwhole : b = ['\r'] → t.head? ≠ some '\n') (ht : Separated ls t) :
      Separated (l :: ls) (l ++ b ++ t)

theorem unbroken_nil : Unbroken [] := by
  simp [Unbroken]

/-- A character that is no break belongs to the first line. -/
theorem Separated.consHead {c : Char} (hc : c ≠ '\r' ∧ c ≠ '\n') {ls : List Text} {t : Text}
    (h : Separated ls t) : Separated (Text.consHead c ls) (c :: t) := by
  have hcons : ∀ {l : Text}, Unbroken l → Unbroken (c :: l) := by
    intro l hl d hd
    rcases List.mem_cons.mp hd with rfl | hd
    · exact hc
    · exact hl d hd
  cases h with
  | last hl => exact .last (hcons hl)
  | cons hl hb hwhole ht => exact .cons (hcons hl) hb hwhole ht

theorem separated_lines (t : Text) : Separated t.lines t := by
  fun_induction Text.lines t with
  | case1 => exact .last unbroken_nil
  | case2 r ih =>
    exact .cons (b := ['\r', '\n']) unbroken_nil (by simp [lineBreaks]) (by simp) ih
  | case3 r hfeed ih =>
    refine .cons (b := ['\r']) unbroken_nil (by simp [lineBreaks]) (fun _ hn => ?_) ih
    obtain ⟨u, hu⟩ := List.head?_eq_some_iff.mp hn
    exact hfeed u hu
  | case4 r ih =>
    exact .cons (b := ['\n']) unbroken_nil (by simp [lineBreaks]) (by simp) ih
  | case5 c r _ hr hn ih => exact ih.consHead ⟨hr, hn⟩

/-- A break ends the line before it. -/
theorem Text.lines_append_break {b t : Text} (hb : b ∈ lineBreaks)
    (hwhole : b = ['\r'] → t.head? ≠ some '\n') : ∀ {l : Text}, Unbroken l →
      (l ++ b ++ t).lines = l :: t.lines
  | [], _ => by
    simp only [lineBreaks, List.mem_cons, List.not_mem_nil, or_false] at hb
    rcases hb with rfl | rfl | rfl
    · show lines ('\r' :: '\n' :: t) = [] :: lines t
      rw [lines]
    · show lines ('\r' :: t) = [] :: lines t
      rw [lines]
      intro u hu
      exact hwhole rfl (hu ▸ rfl)
    · show lines ('\n' :: t) = [] :: lines t
      rw [lines]
  | c :: r, hl => by
    obtain ⟨hr, hn⟩ := hl c (List.mem_cons_self ..)
    rw [List.cons_append, List.cons_append, Text.lines_cons hr hn,
      lines_append_break hb hwhole fun d hd => hl d (List.mem_cons_of_mem _ hd)]
    rfl

/-- **There is one way to read a text as lines with breaks between them.** -/
theorem separated_iff {ls : List Text} {t : Text} : Separated ls t ↔ ls = t.lines := by
  constructor
  · intro h
    induction h with
    | last hl => exact (Text.lines_of_unbroken hl).symm
    | cons hl hb hwhole _ ih => rw [Text.lines_append_break hb hwhole hl, ih]
  · rintro rfl
    exact separated_lines t

/-! ### Blocks -/

theorem Text.strip_eq_nil_iff {t : Text} : t.strip = [] ↔ AllBlank t := by
  refine ⟨fun h => ?_, strip_eq_nil⟩
  obtain ⟨w, v, hw, hv, ht⟩ := exists_strip t
  rw [h, List.append_nil] at ht
  exact ht ▸ hw.append hv

namespace Variant

theorem lines_ofBlock {block : Text} (h : ¬ AllBlank block) :
    (ofBlock block).lines = block.strip.lines := by
  rw [ofBlock_eq, if_neg (mt Text.strip_eq_nil_iff.mp h)]
  rfl

theorem lines_ofBlock_eq_nil_iff {block : Text} : (ofBlock block).lines = [] ↔ AllBlank block := by
  refine ⟨fun h => ?_, fun h => ofBlock_lines_eq_nil (Text.strip_eq_nil h)⟩
  by_contra hb
  rw [lines_ofBlock hb] at h
  exact Text.lines_ne_nil _ h

/-- The lines of a block, joined by feeds, are the trimmed block with feeds as breaks. -/
theorem joinWith_lines_ofBlock (block : Text) :
    Text.joinWith ['\n'] (ofBlock block).lines = unifyBreaks block.strip := by
  by_cases hb : AllBlank block
  · rw [lines_ofBlock_eq_nil_iff.mpr hb, Text.strip_eq_nil hb]
    rfl
  · rw [lines_ofBlock hb, joinWith_lines_eq_unifyBreaks]

/-- The lines of a block are read again from what they make joined by feeds. -/
theorem ofBlock_joinWith_lines (block : Text) :
    ofBlock (Text.joinWith ['\n'] (ofBlock block).lines) = ofBlock block := by
  rw [ofBlock_joinWith (ofBlock_unbroken block) (ofBlock_trimmed block), ofLines_ofBlock]

/-- **What the lines of a block forget**: the blanks at its ends and the forms of its
breaks. -/
theorem ofBlock_eq_iff {block other : Text} :
    ofBlock block = ofBlock other ↔ unifyBreaks block.strip = unifyBreaks other.strip := by
  rw [← joinWith_lines_ofBlock, ← joinWith_lines_ofBlock]
  refine ⟨fun h => by rw [h], fun h => ?_⟩
  rw [← ofBlock_joinWith_lines block, h, ofBlock_joinWith_lines]

/-- **Which lines are those of a block.** -/
theorem exists_ofBlock_iff {ls : List Text} :
    (∃ block, (ofBlock block).lines = ls) ↔ (∀ l ∈ ls, Unbroken l) ∧ TrimmedLines ls := by
  constructor
  · rintro ⟨block, rfl⟩
    exact ⟨ofBlock_unbroken block, ofBlock_trimmed block⟩
  · rintro ⟨hu, ht⟩
    exact ⟨_, by rw [ofBlock_joinWith hu ht]; rfl⟩

/-- **A block is read as its normal form.** It has no lines exactly if it is blank. Otherwise
no line holds a break, the first one begins and the last one ends with a character that is not
blank, and the trimmed block is the lines in their order with breaks between them. What the
lines make joined by feeds is read as the same lines, live or not as before, whatever blanks
are around it. -/
theorem ofBlock_normal_form (block : Text) :
    ((ofBlock block).lines = [] ↔ AllBlank block) ∧
    (¬ AllBlank block → (∀ l ∈ (ofBlock block).lines, Unbroken l) ∧
      TrimmedLines (ofBlock block).lines ∧ Separated (ofBlock block).lines block.strip) ∧
    ∀ w v, AllBlank w → AllBlank v →
      ofBlock (w ++ Text.joinWith ['\n'] (ofBlock block).lines ++ v) = ofBlock block := by
  refine ⟨lines_ofBlock_eq_nil_iff, fun hb => ⟨ofBlock_unbroken block, ofBlock_trimmed block, ?_⟩,
    fun w v hw hv => ?_⟩
  · exact separated_iff.mpr (lines_ofBlock hb)
  · rw [ofBlock_around hw hv, ofBlock_joinWith_lines]

/-- Breaks of all three forms, two of them in a row, a line of blanks, and blanks at both ends
that are no spaces. -/
def exoticBlanks : Text := "\u2003\r\n a();\r\r\n\x0b \n\rb \u00a0c\x1c\n\u0085".toList

theorem ofBlock_normal_form_exoticBlanks :
    ¬ AllBlank exoticBlanks ∧
    (ofBlock exoticBlanks).lines =
      ["a();".toList, [], "\x0b ".toList, [], "b \u00a0c".toList] ∧
    Separated ["a();".toList, [], "\x0b ".toList, [], "b \u00a0c".toList] exoticBlanks.strip ∧
    ofBlock ("\r\n\u2028".toList ++
      Text.joinWith ['\n'] ["a();".toList, [], "\x0b ".toList, [], "b \u00a0c".toList] ++
        "\x1f\n".toList) = ofBlock exoticBlanks := by
  obtain ⟨hnil, hlines, hagain⟩ := ofBlock_normal_form exoticBlanks
  have hread : (ofBlock exoticBlanks).lines =
      ["a();".toList, [], "\x0b ".toList, [], "b \u00a0c".toList] := by decide +kernel
  have hblank : ¬ AllBlank exoticBlanks := by
    rw [← hnil, hread]
    simp
  rw [hread] at hlines hagain
  exact ⟨hblank, hread, (hlines hblank).2.2, hagain _ _ (by simp [AllBlank, isBlank])
    (by simp [AllBlank, isBlank])⟩

end Variant
end Handout
