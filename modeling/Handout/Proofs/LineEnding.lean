/-
# Line endings under rendering

A text uses CRLF line endings when its line feeds and its carriage returns stand in pairs.
Of a text that is woven from gaps and snippets every part does, as a snippet begins and ends
with the characters of its markers (`Fills.ends_of_tag`), so no pair is divided.

Rendering keeps the gaps and writes only line feeds of its own: between the lines of a block
and around the markers. So in the output of such a text every carriage return still has
its line feed, and every line feed its carriage return exactly when no snippet is rendered
with a line break (`render_keeps_crlf_iff`): the markup is dropped and what is shown of every
snippet has at most one line.

Key definitions: `ReturnsPaired`, `UsesCrlf`, `Snippet.OnOneLine`.
Key theorems: `usesCrlf_append_iff`, `Woven.usesCrlf_weave_iff`,
`Snippet.Read.feed_mem_rendered_iff`, `render_keeps_crlf_iff`.
-/
import Handout.Proofs.Surviving
import Handout.Proofs.Weaving

namespace Handout

open Marker

/-! ### Line endings of a text -/

/-- Every carriage return is directly followed by a line feed. -/
def ReturnsPaired (t : Text) : Prop :=
  ∀ a b, t = a ++ '\r' :: b → b.head? = some '\n'

/-- Every line feed is directly preceded by a carriage return and every carriage return
directly followed by a line feed. -/
structure UsesCrlf (t : Text) : Prop where
  feeds : ∀ a b, t = a ++ '\n' :: b → a.getLast? = some '\r'
  returns : ReturnsPaired t

theorem ReturnsPaired.getLast?_ne {t : Text} (h : ReturnsPaired t) : t.getLast? ≠ some '\r' := by
  intro hl
  obtain ⟨a, rfl⟩ := List.getLast?_eq_some_iff.mp hl
  have := h a [] rfl
  cases this

theorem ReturnsPaired.append {a b : Text} (ha : ReturnsPaired a) (hb : ReturnsPaired b) :
    ReturnsPaired (a ++ b) := by
  intro x y h
  rcases List.append_eq_append_iff.mp h with ⟨z, rfl, rfl⟩ | ⟨z, rfl, hz⟩
  · exact hb z y rfl
  · cases z with
    | nil => exact hb [] y (by simpa using hz.symm)
    | cons c z =>
      obtain ⟨rfl, rfl⟩ := List.cons.inj hz
      have hhead := ha x z rfl
      show (z ++ b).head? = some '\n'
      rw [List.head?_append, hhead]
      rfl

theorem returnsPaired_of_no_return {t : Text} (h : '\r' ∉ t) : ReturnsPaired t := by
  rintro a b rfl
  simp at h

theorem getLast?_ne_of_no_return {t : Text} (h : '\r' ∉ t) : t.getLast? ≠ some '\r' :=
  fun hl => h (List.mem_of_getLast? hl)

/-- A text uses CRLF when both its parts do, as long as it is not divided between a
carriage return and its line feed. -/
theorem usesCrlf_append_iff {a b : Text}
    (h : ¬ (a.getLast? = some '\r' ∧ b.head? = some '\n')) :
    UsesCrlf (a ++ b) ↔ UsesCrlf a ∧ UsesCrlf b := by
  constructor
  · intro hab
    constructor
    · constructor
      · rintro x y rfl
        exact hab.feeds x (y ++ b) (by simp)
      · rintro x y rfl
        have hy := hab.returns x (y ++ b) (by simp)
        cases y with
        | nil => exact absurd ⟨by simp, by simpa using hy⟩ h
        | cons c y => simpa using hy
    · constructor
      · rintro x y rfl
        have hx := hab.feeds (a ++ x) y (by simp)
        cases x with
        | nil => exact absurd ⟨by simpa using hx, rfl⟩ h
        | cons c x => rwa [List.getLast?_append_of_ne_nil _ (by simp)] at hx
      · rintro x y rfl
        exact hab.returns (a ++ x) y (by simp)
  · rintro ⟨ha, hb⟩
    refine ⟨fun x y hxy => ?_, ha.returns.append hb.returns⟩
    rcases List.append_eq_append_iff.mp hxy with ⟨z, rfl, rfl⟩ | ⟨z, rfl, hz⟩
    · have hlast := hb.feeds z y rfl
      rw [List.getLast?_append, hlast]
      rfl
    · cases z with
      | nil =>
        have hlast := hb.feeds [] y (by simpa using hz.symm)
        cases hlast
      | cons c z =>
        obtain ⟨rfl, -⟩ := List.cons.inj hz
        exact ha.feeds x z rfl

/-- Without carriage returns a text uses CRLF only if it has no line feed. -/
theorem usesCrlf_iff_of_no_return {t : Text} (h : '\r' ∉ t) : UsesCrlf t ↔ '\n' ∉ t := by
  constructor
  · intro ht hn
    obtain ⟨a, b, rfl⟩ := List.append_of_mem hn
    have hr := List.mem_of_getLast? (ht.feeds a b rfl)
    exact h (List.mem_append_left _ hr)
  · intro hn
    refine ⟨?_, returnsPaired_of_no_return h⟩
    rintro a b rfl
    simp at hn

/-- Whether a text uses CRLF, read pair by pair. -/
def crlfPaired : Text → Bool
  | [] => true
  | '\r' :: '\n' :: r => crlfPaired r
  | c :: r => c != '\r' && c != '\n' && crlfPaired r

theorem crlfPaired_iff (t : Text) : crlfPaired t = true ↔ UsesCrlf t := by
  fun_induction crlfPaired t with
  | case1 => simp [usesCrlf_iff_of_no_return]
  | case2 r ih =>
    have hpair : UsesCrlf ['\r', '\n'] := by
      constructor
      · intro a b h
        match a, h with
        | [_], h =>
          obtain ⟨rfl, -⟩ := List.cons.inj h
          rfl
        | _ :: _ :: _ :: _, h => simp at h
      · intro a b h
        match a, h with
        | [], h =>
          obtain ⟨-, rfl⟩ := List.cons.inj h
          rfl
        | [_, _], h => simp at h
        | _ :: _ :: _ :: _, h => simp at h
    have hr := usesCrlf_append_iff (a := ['\r', '\n']) (b := r) (by simp)
    rw [ih, ← and_iff_right (b := UsesCrlf r) hpair, ← hr]
    rfl
  | case3 c r hne ih =>
    rw [Bool.and_eq_true, Bool.and_eq_true, bne_iff_ne, bne_iff_ne, ih]
    constructor
    · rintro ⟨⟨hr, hn⟩, h⟩
      have hc : UsesCrlf [c] :=
        (usesCrlf_iff_of_no_return (by simpa using Ne.symm hr)).mpr (by simpa using Ne.symm hn)
      exact (usesCrlf_append_iff (a := [c]) (by simp [hr])).mpr ⟨hc, h⟩
    · intro h
      have hr : c ≠ '\r' := by
        rintro rfl
        obtain ⟨r', rfl⟩ := List.head?_eq_some_iff.mp (h.returns [] r rfl)
        exact hne r' rfl rfl
      have hn : c ≠ '\n' := by
        rintro rfl
        have := h.feeds [] r rfl
        cases this
      exact ⟨⟨hr, hn⟩, ((usesCrlf_append_iff (a := [c]) (by simp [hr])).mp h).2⟩

instance (t : Text) : Decidable (UsesCrlf t) :=
  decidable_of_iff _ (crlfPaired_iff t)

/-! ### The parts of a woven text -/

/-- A tag begins with the slash of its opening marker and ends with the `>` of a marker. -/
theorem Fills.ends_of_tag {before x after : Text} {o : Opening} {c : Closing}
    {children : List Node} (h : Fills before x after [.tag o c children]) :
    x.head? = some '/' ∧ x.getLast? = some '>' := by
  obtain ⟨-, -, ⟨z, rfl, -⟩ | ⟨g, -, -, rfl, -⟩⟩ := h.of_tag
  · rw [openingText_eq, closingText_eq]
    constructor
    · rfl
    · simp [List.getLast?_append, List.getLast?_cons]
  · rw [openingText_eq]
    constructor
    · rfl
    · simp [List.getLast?_cons]

/-- **The gaps of a text with CRLF use CRLF**, so texts without carriage returns put in the
place of the snippets leave every carriage return paired, and every line feed if they have
none. -/
theorem Woven.usesCrlf_weave_iff {f : Snippet → Text} {first : Text} {insets : List Inset}
    (h : Woven first insets) (hf : ∀ x ∈ insets, '\r' ∉ f x.snippet)
    (hu : UsesCrlf (weave (fun x _ => x) first insets)) :
    ReturnsPaired (weave (fun _ => f) first insets) ∧
      (UsesCrlf (weave (fun _ => f) first insets) ↔ ∀ x ∈ insets, '\n' ∉ f x.snippet) := by
  induction h with
  | last silent =>
    have hgap : UsesCrlf _ := hu
    exact ⟨hgap.returns, iff_of_true hgap (by simp)⟩
  | @inset gap x r plain alone hind more ih =>
    rw [List.forall_mem_cons] at hf
    obtain ⟨o, c, children, hfill, -⟩ := parse_alone_iff.mp alone
    obtain ⟨hhead, hlast⟩ := hfill.ends_of_tag
    rw [weave] at hu
    have hslash : (x.text ++ weave (fun x _ => x) x.gap r).head? ≠ some '\n' := by
      simp [List.head?_append, hhead]
    obtain ⟨hgap, hrest⟩ := (usesCrlf_append_iff fun he => hslash he.2).mp hu
    have hsolid : x.text.getLast? ≠ some '\r' := by simp [hlast]
    obtain ⟨-, hrest⟩ := (usesCrlf_append_iff fun he => hsolid he.1).mp hrest
    obtain ⟨hreturns, hiff⟩ := ih hf.2 hrest
    rw [weave]
    constructor
    · exact hgap.returns.append ((returnsPaired_of_no_return hf.1).append hreturns)
    · rw [usesCrlf_append_iff fun he => hgap.returns.getLast?_ne he.1,
        usesCrlf_append_iff fun he => getLast?_ne_of_no_return hf.1 he.1,
        usesCrlf_iff_of_no_return hf.1, hiff, List.forall_mem_cons]
      exact and_iff_right hgap

/-! ### Line breaks of a rendering -/

/-- Texts without line feeds, joined by line feeds, have one as soon as there are two of
them. -/
theorem Text.feed_mem_joinWith_iff : ∀ {ls : List Text}, (∀ l ∈ ls, '\n' ∉ l) →
    ('\n' ∈ joinWith ['\n'] ls ↔ 1 < ls.length)
  | [], _ => by simp [joinWith]
  | [l], h => by simpa [joinWith] using h l
  | l :: m :: ls, _ => by simp [joinWith]

theorem Variant.length_shownLines (v : Variant) (wantLive : Bool) (indentation : Text) :
    (v.shownLines wantLive indentation).length = v.lines.length := by
  unfold shownLines
  split
  · exact List.length_map _
  · exact List.length_map _
  · rfl

namespace Snippet

/-- The markup is dropped and what is shown of the snippet has at most one line. -/
def OnOneLine (o : Options) (s : Snippet) : Prop :=
  o.mode.keepsMarkup = false ∧
    ∀ v, s.variant? (activationFor o s).kind = some v → v.lines.length ≤ 1

theorem no_return_inner {indentation : Text} (hi : '\r' ∉ indentation) :
    ∀ blocks : List (Kind × Text), (∀ p ∈ blocks, '\r' ∉ p.2) → '\r' ∉ inner indentation blocks
  | [], _ => by simp [inner, startLine, hi]
  | (k, b) :: r, h => by
    rw [List.forall_mem_cons] at h
    have hopening := (unbroken_iff.mp
      (unbroken_openingText k.isName (g := []) (by simp [Unbroken]))).1
    have hclosing := (unbroken_iff.mp (unbroken_closingText k.isName)).1
    simp [inner, startLine, hi, h.1, hopening, hclosing, no_return_inner hi r h.2]

/-- A rendering has no carriage return. -/
theorem Read.no_return_rendered {s : Snippet} (h : s.Read) (o : Options) :
    '\r' ∉ s.rendered o := by
  have hblock : ∀ {k : Kind} {b : Text}, s.block? o k = some b → '\r' ∉ b := h.not_mem_block
  unfold rendered
  split_ifs with hm
  · have hopening := (unbroken_iff.mp
      (unbroken_openingText isName_tagName (unbroken_taskMarkup h.task))).1
    have hclosing := (unbroken_iff.mp (unbroken_closingText isName_tagName)).1
    have hinner := no_return_inner (unbroken_iff.mp h.unbroken).1
      (s.blocks o) fun p hp => hblock (mem_blocks_iff.mp hp)
    simp [written, hopening, hclosing, hinner]
  · cases hb : s.block? o (activationFor o s).kind with
    | none => simp
    | some b => exact hblock hb

theorem feed_mem_written (o : Options) (s : Snippet) : '\n' ∈ s.written o := by
  have hinner : '\n' ∈ inner s.indentation (s.blocks o) := by
    cases s.blocks o <;> simp [inner, startLine]
  simp [written, hinner]

/-- **A snippet is rendered without a line break exactly when it is on one line.** -/
theorem Read.feed_mem_rendered_iff {s : Snippet} (h : s.Read) (o : Options) :
    '\n' ∉ s.rendered o ↔ s.OnOneLine o := by
  unfold rendered OnOneLine
  by_cases hm : o.mode.keepsMarkup = true
  · simp [hm, feed_mem_written]
  · rw [if_neg hm]
    have hdrop : o.mode.keepsMarkup = false := by simpa using hm
    rw [and_iff_right hdrop, block?]
    cases hv : s.variant? (activationFor o s).kind with
    | none => simp
    | some v =>
      obtain ⟨raw, -, rfl⟩ := h.variant _ v hv
      have hlines := Variant.shownLines_unbroken h.unbroken raw
        ((activationFor o s).isActive (activationFor o s).kind)
      have hfeeds := Text.feed_mem_joinWith_iff fun l hl => (unbroken_iff.mp (hlines l hl)).2
      simp only [Option.map_some, Option.getD_some, Variant.shown, hfeeds,
        Variant.length_shownLines, Option.some.injEq, forall_eq', not_lt]

end Snippet

/-! ### Rendering a text with CRLF line endings -/

/-- **What becomes of CRLF line endings.** Rendering succeeds in every mode and leaves no
carriage return alone. All line endings are still CRLF exactly when every snippet is rendered
on one line, which with the markup no snippet is. -/
theorem render_keeps_crlf_iff {t : Text} {d : Document} (h : Document.parse t = .ok d)
    (ht : UsesCrlf t) (o : Options) : ∃ out, d.render o = .ok out ∧ ReturnsPaired out ∧
      (UsesCrlf out ↔ ∀ s ∈ d.snippets, s.OnOneLine o) := by
  obtain ⟨-, first, insets, -, rfl, hw, hsnippets, -, hspelled⟩ := exists_woven h
  have hread := (readable_of_parse h).2.read
  obtain ⟨-, hrender⟩ := Document.render_eq_spelled h o
  have hmem : ∀ x ∈ insets, x.snippet ∈ d.snippets :=
    fun x hx => hsnippets ▸ List.mem_map_of_mem hx
  obtain ⟨hreturns, hiff⟩ := hw.usesCrlf_weave_iff
    (fun x hx => (hread _ (hmem x hx)).no_return_rendered o) ht
  refine ⟨_, by rw [hrender, hspelled], hreturns, hiff.trans ?_⟩
  rw [← hsnippets, List.forall_mem_map]
  exact forall₂_congr fun x hx => (hread _ (hmem x hx)).feed_mem_rendered_iff o

/-- A variant of two lines and one of a single line, with CRLF line endings. -/
def twoLines : Text :=
  ("//<snippet>\r\n//<student>\r\na\r\nb\r\n//</student>\r\n".toList
    ++ "//<solution>\r\n//x\r\n//</solution>\r\n//</snippet>\r\n".toList)

theorem render_keeps_crlf_iff_twoLines : UsesCrlf twoLines ∧ ∃ d, Document.parse twoLines = .ok d ∧
    (∃ out, d.render ⟨.student, none, false⟩ = .ok out ∧ ¬ UsesCrlf out) ∧
      ∃ out, d.render ⟨.solution, none, false⟩ = .ok out ∧ UsesCrlf out := by
  let s : Snippet := ⟨[], none, some ⟨["a".toList, "b".toList], true⟩,
    some ⟨["//x".toList], false⟩, none⟩
  let d : Document := ⟨twoLines, [.snippet s, .text ⟨92, 2⟩]⟩
  have h : Document.parse twoLines = .ok d := by decide +kernel
  have hu : UsesCrlf twoLines := by decide +kernel
  obtain ⟨out, hout, -, hiff⟩ := render_keeps_crlf_iff h hu ⟨.student, none, false⟩
  obtain ⟨out', hout', -, hiff'⟩ := render_keeps_crlf_iff h hu ⟨.solution, none, false⟩
  refine ⟨hu, d, h, ⟨out, hout, fun he => ?_⟩, out', hout', hiff'.mpr fun s' hs' => ?_⟩
  · have hone := (hiff.mp he s (List.mem_singleton.mpr rfl)).2 _ rfl
    exact absurd hone (by decide)
  · obtain rfl : s' = s := List.mem_singleton.mp hs'
    refine ⟨rfl, fun v hv => ?_⟩
    cases hv
    decide

end Handout
