/-
# Texts that are put together

Markers do not keep to lines. One that opens runs over line breaks to the next `>`, so a
text that ends with `//<b` and a line break can make a marker with what comes behind it,
though no marker begins in it. If the text ends with a line break, this is the only way: the
marker has its `//<` and the first character of its name behind the last `>`
(`exists_opening_of_marksAt`). Where there is none, the text is sealed: what is silent at
its end stays silent before every other text, and it ends with no blank that could be an
indentation (`Sealed`, `sealed_of_endsLine`).

The parts of a sealed text and those of another text are the parts of both together. Only the
last gap of the one joins the first gap of the other (`Woven.append`). So both are
rendered as they are alone (`render_append`).

Key definitions: `behindLast`, `EndsLine`, `Sealed`.
Key theorems: `exists_opening_of_marksAt`, `sealed_of_endsLine`, `Woven.append`,
`render_append`.
-/
import Handout.Proofs.Weaving

namespace Handout

/-! ### Ends at which nothing is left open -/

/-- The text behind the last `>`, or all of it if there is none. -/
def behindLast (t : Text) : Text :=
  (t.reverse.takeWhile fun c => c != '>').reverse

/-- The text is empty or ends with a line break. -/
def EndsLine (t : Text) : Prop := ∀ c, t.getLast? = some c → c = '\n' ∨ c = '\r'

/-- Whatever follows the text, no marker begins at its silent end, and no indentation
begins there. -/
def Sealed (t : Text) : Prop :=
  ∀ u, u <:+ t → Silent u [] → EndsSolid u ∧ ∀ next, Silent u next

theorem Sealed.of_suffix {u t : Text} (h : Sealed t) (hu : u <:+ t) : Sealed u :=
  fun v hv => h v (hv.trans hu)

theorem suffix_behindLast {q t : Text} (hq : q <:+ t) (hgt : '>' ∉ q) : q <:+ behindLast t := by
  obtain ⟨p, rfl⟩ := hq
  have hall : ∀ c ∈ q.reverse, (c != '>') = true := by
    intro c hc
    rw [bne_iff_ne]
    rintro rfl
    exact hgt (List.mem_reverse.mp hc)
  rw [behindLast, List.reverse_append, List.takeWhile_append_of_pos hall, List.reverse_append,
    List.reverse_reverse]
  exact List.suffix_append _ q

theorem EndsLine.of_suffix {u t : Text} (h : EndsLine t) (hu : u <:+ t) : EndsLine u := by
  obtain ⟨p, rfl⟩ := hu
  intro c hc
  exact h c (by rw [List.getLast?_append, hc]; rfl)

theorem EndsLine.endsSolid {t : Text} (h : EndsLine t) : EndsSolid t := by
  intro c hc
  rcases h c hc with rfl | rfl
  · decide
  · decide

theorem not_isWord_of_break {c : Char} (h : c = '\n' ∨ c = '\r') : isWord c = false := by
  rcases h with rfl | rfl
  · decide
  · decide

/-- A text without a `>` is a front part of the marker that begins with it. -/
theorem prefix_of_append_eq {q next a r : Text} (hgt : '>' ∉ q) (h : q ++ next = a ++ '>' :: r) :
    q <+: a := by
  rcases List.append_eq_append_iff.mp h with ⟨x, rfl, -⟩ | ⟨x, rfl, hx⟩
  · exact List.prefix_append q x
  · cases x with
    | nil => simp
    | cons d x =>
      rw [List.cons_append, List.cons.injEq] at hx
      exact absurd (hx.1 ▸ List.mem_append_right a (List.mem_cons_self ..)) hgt

/-- A marker that runs over a line break and has no `>` before it is an opening one, and the
first character of its name comes before the break. -/
theorem exists_opening_of_marksAt {q next : Text} (hq : EndsLine q) (h0 : q ≠ [])
    (hgt : '>' ∉ q) (hm : marksAt (q ++ next) = true) :
    ∃ c, isWord c = true ∧ ['/', '/', '<', c] <+: q := by
  obtain ⟨e, he⟩ := Option.isSome_iff_exists.mp (List.getLast?_isSome.mpr h0)
  have hbreak := hq e he
  have hmem : e ∈ q := List.mem_of_getLast? he
  rcases marksAt_iff.mp hm with ⟨w, g, r, hw, heq⟩ | ⟨w, r, hw, heq⟩
  · rw [Marker.openingText_append] at heq
    have hpre := prefix_of_append_eq hgt heq
    obtain ⟨d, w', rfl⟩ := List.exists_cons_of_ne_nil hw.isName.ne_nil
    refine ⟨d, hw.isName.word d (List.mem_cons_self ..), ?_⟩
    have hshort : ¬ q <+: ['/', '/', '<'] := by
      intro hp
      have := hp.subset hmem
      rcases hbreak with rfl | rfl
      · exact absurd this (by decide)
      · exact absurd this (by decide)
    have hfour : ['/', '/', '<', d] <+: '/' :: '/' :: '<' :: (d :: w' ++ g) :=
      ⟨w' ++ g, by simp⟩
    have hthree : ['/', '/', '<'] <+: '/' :: '/' :: '<' :: (d :: w' ++ g) :=
      ⟨d :: w' ++ g, by simp⟩
    refine List.prefix_of_prefix_length_le hfour hpre ?_
    by_contra hlt
    rw [not_le] at hlt
    exact hshort (List.prefix_of_prefix_length_le hpre hthree (Nat.le_of_lt_succ hlt))
  · rw [Marker.closingText_append] at heq
    have hin := (prefix_of_append_eq hgt heq).subset hmem
    simp only [List.mem_cons] at hin
    have hword := not_isWord_of_break hbreak
    rcases hin with rfl | rfl | rfl | rfl | hin
    · exact absurd hbreak (by decide)
    · exact absurd hbreak (by decide)
    · exact absurd hbreak (by decide)
    · exact absurd hbreak (by decide)
    · exact absurd (hw.word e hin) (by rw [hword]; decide)

/-- **A text that ends with a line break is sealed** if no name of a marker begins behind
its last `>`. -/
theorem sealed_of_endsLine {t : Text} (hend : EndsLine t)
    (hopen : ∀ c, isWord c = true → ¬ ['/', '/', '<', c] <:+: behindLast t) : Sealed t := by
  intro u hu hsilent
  refine ⟨(hend.of_suffix hu).endsSolid, fun next q hq h0 => ?_⟩
  have hs := hsilent q hq h0
  by_cases hgt : '>' ∈ q
  · rw [marksAt_append hgt] at hs ⊢
    exact hs
  · rw [Bool.eq_false_iff]
    intro hm
    obtain ⟨c, hc, hpre⟩ := exists_opening_of_marksAt (hend.of_suffix (hq.trans hu)) h0 hgt hm
    exact hopen c hc (hpre.isInfix.trans (suffix_behindLast (hq.trans hu) hgt).isInfix)

/-! ### Woven texts side by side -/

theorem weave_append (f : Text → Snippet → Text) (gap first : Text) (insets : List Inset) :
    weave f (gap ++ first) insets = gap ++ weave f first insets := by
  cases insets with
  | nil => rfl
  | cons x r => rw [weave, weave, List.append_assoc]

/-- A gap before a woven text joins its first gap. -/
theorem Woven.prepend {gap first : Text} {insets : List Inset} (h : Woven first insets)
    (hsolid : EndsSolid gap) (hsilent : ∀ next, Silent gap next) : Woven (gap ++ first) insets := by
  cases h with
  | last silent => exact .last (Silent.append (hsilent _) silent)
  | inset plain alone hind more =>
    refine .inset (Silent.append (hsilent _) plain) alone ?_ more
    rw [hind, trailing_append hsolid]

/-- **The parts of two texts are those of both together**, if the first is sealed. The
induction is on its parts; an inset is kept, and the last gap joins what follows. -/
theorem Woven.append {first first' : Text} {insets insets' : List Inset}
    (h : Woven first insets) (h' : Woven first' insets') :
    Sealed (weave (fun x _ => x) first insets) →
    ∃ gap joined, Woven gap joined ∧
      joined.map Inset.snippet = insets.map Inset.snippet ++ insets'.map Inset.snippet ∧
      ∀ f, weave f gap joined = weave f first insets ++ weave f first' insets' := by
  induction h with
  | @last gap silent =>
    intro hsealed
    obtain ⟨hsolid, hsilent⟩ := hsealed gap (List.suffix_refl gap) silent
    exact ⟨gap ++ first', insets', h'.prepend hsolid hsilent, rfl,
      fun f => weave_append f gap first' insets'⟩
  | @inset gap x r plain alone hind _ ih =>
    intro hsealed
    rw [weave, ← List.append_assoc] at hsealed
    obtain ⟨next, joined, hw, hsnippets, hweave⟩ :=
      ih (hsealed.of_suffix (List.suffix_append _ _))
    refine ⟨gap, ⟨x.text, x.snippet, next⟩ :: joined, .inset plain alone hind hw, ?_, fun f => ?_⟩
    · rw [List.map_cons, hsnippets]
      rfl
    · rw [weave, hweave, weave, List.append_assoc, List.append_assoc]

/-- **Texts can be rendered one after another.** Where the first ends with a line break, or
is empty, and no name of a marker begins behind its last `>`, both together have the
snippets of both, and are rendered in every mode as each of them alone. -/
theorem render_append {t₁ t₂ : Text} {d₁ d₂ : Document} (h₁ : Document.parse t₁ = .ok d₁)
    (h₂ : Document.parse t₂ = .ok d₂) (hend : EndsLine t₁)
    (hopen : ∀ c, isWord c = true → ¬ ['/', '/', '<', c] <:+: behindLast t₁) :
    ∃ d, Document.parse (t₁ ++ t₂) = .ok d ∧ d.snippets = d₁.snippets ++ d₂.snippets ∧
      ∀ o, ∃ u₁ u₂, d₁.render o = .ok u₁ ∧ d₂.render o = .ok u₂ ∧
        d.render o = .ok (u₁ ++ u₂) := by
  obtain ⟨-, first, insets, -, rfl, hw, hsnippets, -, hspelled⟩ := exists_woven h₁
  obtain ⟨-, first', insets', -, rfl, hw', hsnippets', -, hspelled'⟩ := exists_woven h₂
  obtain ⟨gap, joined, hw'', hjoined, hweave⟩ := hw.append hw' (sealed_of_endsLine hend hopen)
  obtain ⟨d, hd, hsnippets'', hspelled''⟩ := hw''.exists_parse
  rw [hweave] at hd
  refine ⟨d, hd, by rw [hsnippets'', hjoined, hsnippets, hsnippets'], fun o => ?_⟩
  refine ⟨_, _, (Document.render_eq_spelled h₁ o).2, (Document.render_eq_spelled h₂ o).2, ?_⟩
  rw [(Document.render_eq_spelled hd o).2, hspelled'', hweave, hspelled, hspelled']

/-- A text with a snippet in it, which ends with a line break. -/
def above : Text := "a > b;\n//<snippet>\n//<student>\nc;\n//</student>\n//</snippet>\r\n".toList

/-- A text that begins with an indented snippet. -/
def below : Text := "  //<snippet>\n  //<solution>\n  d;\n  //</solution>\n  //</snippet>".toList

theorem render_append_above_below : ∃ d₁ d₂ d u₁ u₂, Document.parse above = .ok d₁ ∧
    Document.parse below = .ok d₂ ∧ Document.parse (above ++ below) = .ok d ∧
      d.snippets.length = 2 ∧ d₁.render ⟨.fullStudent, none, false⟩ = .ok u₁ ∧
      d₂.render ⟨.fullStudent, none, false⟩ = .ok u₂ ∧
      d.render ⟨.fullStudent, none, false⟩ = .ok (u₁ ++ u₂) := by
  let s₁ : Snippet := ⟨[], none, some ⟨["c;".toList], true⟩, none, none⟩
  let s₂ : Snippet := ⟨[' ', ' '], none, none, some ⟨["d;".toList], true⟩, none⟩
  let d₁ : Document := ⟨above, [.text ⟨0, 7⟩, .snippet s₁, .text ⟨59, 2⟩]⟩
  let d₂ : Document := ⟨below, [.text ⟨0, 2⟩, .snippet s₂]⟩
  have h₁ : Document.parse above = .ok d₁ := by decide +kernel
  have h₂ : Document.parse below = .ok d₂ := by decide +kernel
  have hend : EndsLine above := by
    intro c hc
    exact .inl (Option.some.inj (hc.symm.trans (by decide)))
  have hbehind : behindLast above = ['\r', '\n'] := by decide +kernel
  have hopen : ∀ c, isWord c = true → ¬ ['/', '/', '<', c] <:+: behindLast above := by
    intro c _ hin
    have hle := hin.length_le
    rw [hbehind] at hle
    exact absurd hle (by simp)
  obtain ⟨d, hd, hsnippets, hrender⟩ := render_append h₁ h₂ hend hopen
  obtain ⟨u₁, u₂, hu₁, hu₂, hu⟩ := hrender ⟨.fullStudent, none, false⟩
  exact ⟨d₁, d₂, d, u₁, u₂, h₁, h₂, hd, by rw [hsnippets]; rfl, hu₁, hu₂, hu⟩

end Handout
