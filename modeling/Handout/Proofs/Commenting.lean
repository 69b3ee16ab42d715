/-
# Putting comment marks and taking them away

Marks are taken only from a variant that is not flagged as live, and the one way to fail
is a line among them that has code and no mark: a live line. So a rendering fails exactly
when the flag denies a line (`Variant.render_eq_error_iff`). A variant whose flag is
derived from its lines is always rendered, and so is every document that was read, in
every mode (`render_answers`).

Putting marks on a live block is undone by taking them: the block has the same number of
lines when it is read again, each with its mark in or beside its own leading blanks, and
none of them is live, so all marks are taken, whatever column the snippet has by then
(`comment_reversible`).

Key definition: `Commented`.
Key theorems: `uncommentLines_eq_error_iff`, `Variant.render_eq_error_iff`,
`render_answers`, `comment_reversible`.
-/
import Handout.Proofs.Accepting
import Handout.Proofs.Switching
import Handout.Proofs.Weaving

namespace Handout

/-! ### When taking marks fails -/

theorem uncommentLine_eq_error_iff {line : Text} {e : FormatError} :
    uncommentLine line = .error e ↔ isLive line = true ∧ e = .uncommentedLine line := by
  by_cases hl : isLive line = true
  · obtain ⟨h0, hm⟩ : (content line).isEmpty = false ∧
        commentMark.isPrefixOf (content line) = false := by simpa [isLive] using hl
    rw [uncommentLine, h0, hm]
    simp [hl, eq_comm]
  · rw [uncommentLine_eq (by simpa using hl)]
    simp [hl]

/-- Taking the marks from some lines fails at the first live one. -/
theorem uncommentLines_eq_error_iff {e : FormatError} : ∀ {lines : List Text},
    uncommentLines lines = .error e ↔
      ∃ line, lines.find? isLive = some line ∧ e = .uncommentedLine line
  | [] => by simp [uncommentLines]
  | line :: r => by
    have ih : uncommentLines r = .error e ↔ ∃ line, r.find? isLive = some line ∧
      e = .uncommentedLine line := uncommentLines_eq_error_iff
    by_cases hl : isLive line = true
    · have hline : uncommentLine line = .error (.uncommentedLine line) :=
        uncommentLine_eq_error_iff.mpr ⟨hl, rfl⟩
      rw [uncommentLines, hline, List.find?_cons_of_pos hl]
      simp [bind, Except.bind, eq_comm]
    · rw [uncommentLines, uncommentLine_eq (by simpa using hl), List.find?_cons_of_neg hl, ← ih]
      cases uncommentLines r with
      | error e' => simp [bind, Except.bind]
      | ok ls => simp [bind, Except.bind, pure, Except.pure]

/-- **When a variant cannot be rendered.** It should be live, it is flagged as not live, and
it has a live line; the first such line is reported. -/
theorem Variant.render_eq_error_iff {v : Variant} {wantLive : Bool} {indentation : Text}
    {e : FormatError} : v.render wantLive indentation = .error e ↔
      wantLive = true ∧ v.live = false ∧
        ∃ line, v.lines.find? isLive = some line ∧ e = .uncommentedLine line := by
  rw [← uncommentLines_eq_error_iff]
  unfold render
  cases wantLive <;> cases v.live
  · simp
  · simp
  · cases uncommentLines v.lines with
    | error e' => simp [bind, Except.bind]
    | ok ls => simp [bind, Except.bind, pure, Except.pure]
  · simp

/-- **A document that was read can be rendered**, in every mode, for every cutoff and with
either solution preferred. A variant can be brought into either state unless its flag denies
a live line, which then is the only error; a flag that is derived from the lines denies
none. -/
theorem render_answers (o : Options) :
    (∀ t d, Document.parse t = .ok d → ∃ out, d.render o = .ok out) ∧
    (∀ (v : Variant) wantLive indentation e, v.render wantLive indentation = .error e ↔
      wantLive = true ∧ v.live = false ∧
        ∃ line, v.lines.find? isLive = some line ∧ e = .uncommentedLine line) ∧
    ∀ lines wantLive indentation,
      ∃ block, (Variant.ofLines lines).render wantLive indentation = .ok block := by
  refine ⟨fun t d hd => ⟨_, (Document.render_eq_spelled hd o).2⟩,
    fun v wantLive indentation e => Variant.render_eq_error_iff, fun lines wantLive indentation => ?_⟩
  cases h : (Variant.ofLines lines).render wantLive indentation with
  | ok block => exact ⟨block, rfl⟩
  | error e =>
    -- the line that is denied would have set the flag
    obtain ⟨-, hdead, line, hline, -⟩ := Variant.render_eq_error_iff.mp h
    have hlive : lines.any isLive = true :=
      List.any_eq_true.mpr ⟨line, List.mem_of_find?_eq_some hline, List.find?_some hline⟩
    rw [Variant.ofLines, hlive] at hdead
    cases hdead

/-- Renders a snippet whose student text has a blank line and a mark in each other line. -/
theorem render_answers_blankLine : ∃ d,
    Document.parse "//<snippet>\n//<student>\n//a\n \n//\n//</student>\n//</snippet>".toList =
      .ok d ∧ ∃ out, d.render ⟨.student, none, false⟩ = .ok out := by
  cases h : Document.parse
      "//<snippet>\n//<student>\n//a\n \n//\n//</student>\n//</snippet>".toList with
  | ok d => exact ⟨d, rfl, (render_answers _).1 _ d h⟩
  | error e =>
    have : (Document.parse
      "//<snippet>\n//<student>\n//a\n \n//\n//</student>\n//</snippet>".toList).isOk = true := by
        decide +kernel
    rw [h] at this
    cases this

/-! ### There and back -/

/-- A line and the same line commented out: a blank line stays as it is, and any other gets
one mark in its leading blanks, or before or after them. -/
def Commented (line marked : Text) : Prop :=
  (AllBlank line → marked = line) ∧
  (¬ AllBlank line → ∃ a b, leading line = a ++ b ∧
    marked = a ++ commentMark ++ b ++ content line)

theorem content_isEmpty_iff {line : Text} : (content line).isEmpty = true ↔ AllBlank line := by
  rw [List.isEmpty_iff, content, List.dropWhile_eq_nil_iff]
  rfl

theorem commented_commentLine (indentation line : Text) :
    Commented line (commentLine indentation line) := by
  refine ⟨fun hb => if_pos (content_isEmpty_iff.mpr hb), fun hb => ?_⟩
  rw [commentLine, if_neg (mt content_isEmpty_iff.mp hb)]
  split_ifs with hp
  · obtain ⟨b, hb⟩ := List.isPrefixOf_iff_prefix.mp hp
    exact ⟨indentation, b, hb.symm, by rw [← hb, List.drop_left]⟩
  · exact ⟨leading line, [], by rw [List.append_nil], by rw [List.append_nil]⟩

/-- **Commenting out a live block is undone exactly.** The block that is shown as comments
is read as lines that correspond to those of the block, each with its mark if it is not
blank; none of them is live; and made live, at whatever indentation, it gives the lines of
the block joined by line feeds, which are read as the block. -/
theorem comment_reversible {block indentation : Text} (hl : (Variant.ofBlock block).live = true)
    (hi : AllBlank indentation) (hu : Unbroken indentation) :
    ∃ commented, (Variant.ofBlock block).render false indentation = .ok commented ∧
      List.Forall₂ Commented (Variant.ofBlock block).lines (Variant.ofBlock commented).lines ∧
      (Variant.ofBlock commented).live = false ∧
      (∀ line ∈ (Variant.ofBlock commented).lines, ¬ LiveLine line) ∧
      (∀ indentation', (Variant.ofBlock commented).render true indentation' =
        .ok (Text.joinWith ['\n'] (Variant.ofBlock block).lines)) ∧
      Variant.ofBlock (Text.joinWith ['\n'] (Variant.ofBlock block).lines) =
        Variant.ofBlock block := by
  have hread := Variant.ofBlock_shown_false hu hl
  have hdead := Variant.live_ofBlock_shown_false hu hi block
  refine ⟨_, Variant.render_ofBlock block false indentation, ?_, hdead, fun line hline hlive => ?_,
    fun indentation' => ?_, ?_⟩
  · rw [hread, Variant.ofLines, List.forall₂_map_right_iff, List.forall₂_same]
    exact fun line _ => commented_commentLine indentation line
  · rw [Variant.live_ofBlock, List.any_eq_false] at hdead
    exact hdead line hline (isLive_iff.mpr hlive)
  · rw [Variant.render_ofBlock, Variant.shown_true_shown_false hu hi hl]
  · rw [Variant.ofBlock_joinWith (Variant.ofBlock_unbroken block) (Variant.ofBlock_trimmed block),
      Variant.ofLines_ofBlock]

/-- Two live lines, one with fewer blanks than the indentation, a comment and a blank line,
with all three kinds of line breaks. -/
def mixedBlock : Text := "\n  a();\r\n   \r //b\n \u2003c\n".toList

theorem comment_reversible_mixedBlock : (Variant.ofBlock mixedBlock).live = true ∧
    ∃ commented, (Variant.ofBlock mixedBlock).render false "  ".toList = .ok commented ∧
      List.Forall₂ Commented (Variant.ofBlock mixedBlock).lines
        (Variant.ofBlock commented).lines ∧
      (Variant.ofBlock commented).render true [] = .ok "a();\n   \n //b\n \u2003c".toList := by
  have hl : (Variant.ofBlock mixedBlock).live = true := by decide +kernel
  have hi : AllBlank "  ".toList := by simp [AllBlank, isBlank]
  obtain ⟨commented, hr, hlines, -, -, hback, -⟩ :=
    comment_reversible hl hi (by simp [Unbroken])
  have hjoin : Text.joinWith ['\n'] (Variant.ofBlock mixedBlock).lines =
      "a();\n   \n //b\n \u2003c".toList := by decide +kernel
  exact ⟨hl, commented, hr, hlines, hjoin ▸ hback []⟩

end Handout
