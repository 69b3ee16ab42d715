/-
# Trimming and splitting into lines

Trimming a text takes blank characters from its ends and nothing else, so
blanks around a text make no difference to it (`strip_around`), and a text that has
none at its ends stays as it is (`strip_eq_self`). Lines that hold no break are what
splitting gives back after they were joined by line feeds (`lines_joinWith`), and pieces
without a separator are what splitting at it gives back (`splitAt_joinWith`).

Key definitions: `AllBlank`, `Unbroken`.
Key theorems: `Text.strip_around`, `Text.exists_strip`, `Text.lines_unbroken`,
`Text.lines_joinWith`, `Text.splitAt_joinWith`.
-/
import Handout.Text.Blank
import Handout.Text.Line
import Mathlib.Data.List.Basic
import Mathlib.Data.List.TakeWhile

namespace Handout

/-- Every character is blank. -/
def AllBlank (t : Text) : Prop := ∀ c ∈ t, isBlank c = true

/-- No character belongs to a line break. -/
def Unbroken (t : Text) : Prop := ∀ c ∈ t, c ≠ '\r' ∧ c ≠ '\n'

theorem AllBlank.append {a b : Text} (ha : AllBlank a) (hb : AllBlank b) : AllBlank (a ++ b) := by
  intro c hc
  rcases List.mem_append.mp hc with hc | hc
  · exact ha c hc
  · exact hb c hc

theorem Unbroken.append {a b : Text} (ha : Unbroken a) (hb : Unbroken b) : Unbroken (a ++ b) := by
  intro c hc
  rcases List.mem_append.mp hc with hc | hc
  · exact ha c hc
  · exact hb c hc

theorem Unbroken.of_sublist {a b : Text} (h : a.Sublist b) (hb : Unbroken b) : Unbroken a :=
  fun c hc => hb c (h.subset hc)

namespace Text

/-! ### Trimming -/

theorem stripStart_append_left {w : Text} (hw : AllBlank w) (t : Text) :
    stripStart (w ++ t) = stripStart t :=
  List.dropWhile_append_of_pos hw

theorem stripEnd_eq_nil : ∀ {w : Text}, AllBlank w → stripEnd w = []
  | [], _ => rfl
  | c :: r, h => by
    have hr : stripEnd r = [] := stripEnd_eq_nil fun d hd => h d (List.mem_cons_of_mem _ hd)
    simp [stripEnd, hr, h c (List.mem_cons_self ..)]

theorem stripEnd_append_right {w : Text} (hw : AllBlank w) : ∀ t : Text,
    stripEnd (t ++ w) = stripEnd t
  | [] => by simp [stripEnd_eq_nil hw, stripEnd]
  | c :: r => by simp [stripEnd, stripEnd_append_right hw r]

/-- What trimming at the end takes away is blank. -/
theorem exists_stripEnd : ∀ t : Text, ∃ w, AllBlank w ∧ t = stripEnd t ++ w
  | [] => ⟨[], by simp [AllBlank], rfl⟩
  | c :: r => by
    obtain ⟨w, hw, hr⟩ := exists_stripEnd r
    unfold stripEnd
    split
    · rename_i he
      rw [he, List.nil_append] at hr
      by_cases hc : isBlank c = true
      · refine ⟨c :: r, ?_, by simp [hc]⟩
        intro d hd
        rcases List.mem_cons.mp hd with rfl | hd
        · exact hc
        · exact hw d (hr ▸ hd)
      · exact ⟨r, hr ▸ hw, by simp [hc]⟩
    · rename_i hk
      refine ⟨w, hw, ?_⟩
      rw [List.cons_append, ← hr]

theorem stripEnd_getLast : ∀ {t : Text} {c : Char}, (stripEnd t).getLast? = some c →
    isBlank c = false
  | [], _, h => by simp [stripEnd] at h
  | d :: r, c, h => by
    unfold stripEnd at h
    split at h
    · by_cases hd : isBlank d = true
      · simp [hd] at h
      · simp only [hd, Bool.false_eq_true, ↓reduceIte, List.getLast?_singleton,
          Option.some.injEq] at h
        simpa [h] using hd
    · rename_i kept hk
      rw [List.getLast?_cons_of_ne_nil] at h
      · exact stripEnd_getLast h
      · exact hk

theorem stripEnd_head {t : Text} {c : Char} (h : (stripEnd t).head? = some c) :
    t.head? = some c := by
  cases t with
  | nil => simp [stripEnd] at h
  | cons d r =>
    unfold stripEnd at h
    split at h
    · by_cases hd : isBlank d = true
      · simp [hd] at h
      · simpa [hd] using h
    · simpa using h

theorem stripEnd_eq_self : ∀ {t : Text}, (∀ c, t.getLast? = some c → isBlank c = false) →
    stripEnd t = t
  | [], _ => rfl
  | [c], h => by simp [stripEnd, h c rfl]
  | c :: d :: r, h => by
    have hr : stripEnd (d :: r) = d :: r :=
      stripEnd_eq_self fun x hx => h x (by rw [List.getLast?_cons_cons]; exact hx)
    rw [stripEnd, hr]

theorem stripStart_eq_self {t : Text} (h : ∀ c, t.head? = some c → isBlank c = false) :
    stripStart t = t := by
  cases t with
  | nil => rfl
  | cons c r => simp [stripStart, h c rfl]

theorem strip_head {t : Text} {c : Char} (h : t.strip.head? = some c) : isBlank c = false := by
  have h' := stripEnd_head h
  unfold stripStart at h'
  have := List.head?_dropWhile_not isBlank t
  rw [h'] at this
  simpa using this

theorem strip_getLast {t : Text} {c : Char} (h : t.strip.getLast? = some c) : isBlank c = false :=
  stripEnd_getLast h

/-- A text without a blank at either end is trimmed. -/
theorem strip_eq_self {t : Text} (hs : ∀ c, t.head? = some c → isBlank c = false)
    (he : ∀ c, t.getLast? = some c → isBlank c = false) : t.strip = t := by
  rw [strip, stripStart_eq_self hs, stripEnd_eq_self he]

/-- What trimming takes away is blank. -/
theorem exists_strip (t : Text) : ∃ w v, AllBlank w ∧ AllBlank v ∧ t = w ++ t.strip ++ v := by
  obtain ⟨v, hv, he⟩ := exists_stripEnd t.stripStart
  refine ⟨t.takeWhile isBlank, v, fun c hc => List.mem_takeWhile_imp hc, hv, ?_⟩
  rw [strip, List.append_assoc, ← he, stripStart, List.takeWhile_append_dropWhile]

theorem strip_eq_nil {t : Text} (h : AllBlank t) : t.strip = [] := by
  rw [strip, ← List.append_nil t, stripStart_append_left h]
  rfl

/-- Blanks around a text are trimmed away with its own. -/
theorem strip_around {w v : Text} (hw : AllBlank w) (hv : AllBlank v) (t : Text) :
    (w ++ t ++ v).strip = t.strip := by
  obtain ⟨w', v', hw', hv', ht⟩ := exists_strip t
  have hall : w ++ t ++ v = (w ++ w') ++ (t.strip ++ (v' ++ v)) := calc
    w ++ t ++ v = w ++ (w' ++ t.strip ++ v') ++ v := by rw [← ht]
    _ = (w ++ w') ++ (t.strip ++ (v' ++ v)) := by simp
  rw [hall, strip, stripStart_append_left (hw.append hw')]
  by_cases h0 : t.strip = []
  · rw [h0, List.nil_append]
    exact strip_eq_nil (hv'.append hv)
  · rw [stripStart_eq_self, stripEnd_append_right (hv'.append hv)]
    · exact stripEnd_eq_self fun _ => strip_getLast
    · intro c hc
      rw [List.head?_append_of_ne_nil _ h0] at hc
      exact strip_head hc

theorem length_strip_le (t : Text) : t.strip.length ≤ t.length := by
  obtain ⟨w, v, -, -, h⟩ := exists_strip t
  have := congrArg List.length h
  simp only [List.length_append] at this
  omega

/-- A text that keeps its length keeps its characters. -/
theorem strip_eq_self_of_length {t : Text} (h : t.strip.length = t.length) : t.strip = t := by
  obtain ⟨w, v, -, -, ht⟩ := exists_strip t
  have hl := congrArg List.length ht
  simp only [List.length_append] at hl
  have hw : w = [] := List.eq_nil_of_length_eq_zero (by omega)
  have hv : v = [] := List.eq_nil_of_length_eq_zero (by omega)
  rw [hw, hv, List.nil_append, List.append_nil] at ht
  exact ht.symm

/-! ### Lines -/

theorem consHead_ne_nil (c : Char) : ∀ ls : List Text, consHead c ls ≠ []
  | [] => by simp [consHead]
  | _ :: _ => by simp [consHead]

theorem lines_ne_nil (t : Text) : t.lines ≠ [] := by
  fun_cases lines t with
  | case5 c r => exact consHead_ne_nil c _
  | _ => simp

theorem lines_cons {c : Char} (hr : c ≠ '\r') (hn : c ≠ '\n') (r : Text) :
    lines (c :: r) = consHead c (lines r) := by
  rw [lines]
  · intro _ h; exact absurd h hr
  · exact hr
  · exact hn

/-- The lines of a text hold no break. -/
theorem lines_unbroken (t : Text) : ∀ l ∈ t.lines, Unbroken l := by
  fun_induction lines t with
  | case1 => simp [Unbroken]
  | case2 r ih | case3 r _ ih | case4 r ih =>
    intro l hl
    rcases List.mem_cons.mp hl with rfl | hl
    · simp [Unbroken]
    · exact ih l hl
  | case5 c r _ hr hn ih =>
    intro l hl
    cases hls : lines r with
    | nil => exact absurd hls (lines_ne_nil r)
    | cons a ls =>
      rw [hls] at hl ih
      simp only [consHead, List.mem_cons] at hl
      rcases hl with rfl | hl
      · intro d hd
        rcases List.mem_cons.mp hd with rfl | hd
        · exact ⟨hr, hn⟩
        · exact ih a (List.mem_cons_self ..) d hd
      · exact ih l (List.mem_cons_of_mem _ hl)

theorem lines_of_unbroken : ∀ {l : Text}, Unbroken l → l.lines = [l]
  | [], _ => rfl
  | c :: r, h => by
    obtain ⟨hr, hn⟩ := h c (List.mem_cons_self ..)
    rw [lines_cons hr hn, lines_of_unbroken fun d hd => h d (List.mem_cons_of_mem _ hd)]
    rfl

theorem lines_append_feed : ∀ {l : Text}, Unbroken l → ∀ t : Text,
    lines (l ++ '\n' :: t) = l :: lines t
  | [], _, t => by
    rw [List.nil_append, lines]
  | c :: r, h, t => by
    obtain ⟨hr, hn⟩ := h c (List.mem_cons_self ..)
    rw [List.cons_append, lines_cons hr hn,
      lines_append_feed (fun d hd => h d (List.mem_cons_of_mem _ hd)) t]
    rfl

/-- Joining lines by line feeds and splitting the result gives the lines back. -/
theorem lines_joinWith : ∀ {ls : List Text}, ls ≠ [] → (∀ l ∈ ls, Unbroken l) →
    lines (joinWith ['\n'] ls) = ls
  | [], h, _ => absurd rfl h
  | [l], _, h => lines_of_unbroken (h l (List.mem_cons_self ..))
  | l :: m :: ls, _, h => by
    have ih : lines (joinWith ['\n'] (m :: ls)) = m :: ls :=
      lines_joinWith (by simp) fun x hx => h x (List.mem_cons_of_mem _ hx)
    rw [joinWith, List.append_assoc, List.singleton_append,
      lines_append_feed (h l (List.mem_cons_self ..)), ih]

theorem joinWith_cons_cons (sep l m : Text) (ls : List Text) :
    joinWith sep (l :: m :: ls) = l ++ sep ++ joinWith sep (m :: ls) := rfl

theorem head?_joinWith_cons {l : Text} {c : Char} (h : l.head? = some c) (sep : Text) :
    ∀ ls : List Text, (joinWith sep (l :: ls)).head? = some c
  | [] => h
  | m :: ls => by
    rw [joinWith_cons_cons, List.append_assoc, List.head?_append, h]
    rfl

theorem getLast?_joinWith {sep : Text} {c : Char} : ∀ {ls : List Text} {l : Text},
    ls.getLast? = some l → l.getLast? = some c → (joinWith sep ls).getLast? = some c
  | [], _, h, _ => by simp at h
  | [a], l, h, hc => by
    rw [List.getLast?_singleton, Option.some.injEq] at h
    rw [joinWith, h, hc]
  | a :: m :: ls, l, h, hc => by
    rw [List.getLast?_cons_cons] at h
    rw [joinWith_cons_cons, List.getLast?_append, getLast?_joinWith h hc]
    rfl

theorem not_mem_joinWith {c : Char} {sep : Text} (hs : c ∉ sep) : ∀ {ls : List Text},
    (∀ l ∈ ls, c ∉ l) → c ∉ joinWith sep ls
  | [], _ => by simp [joinWith]
  | [l], h => h l (List.mem_cons_self ..)
  | l :: m :: ls, h => by
    have ih : c ∉ joinWith sep (m :: ls) :=
      not_mem_joinWith hs fun x hx => h x (List.mem_cons_of_mem _ hx)
    rw [joinWith_cons_cons, List.mem_append, List.mem_append, not_or, not_or]
    exact ⟨⟨h l (List.mem_cons_self ..), hs⟩, ih⟩

theorem joinWith_consHead (sep : Text) (c : Char) : ∀ {ls : List Text}, ls ≠ [] →
    joinWith sep (consHead c ls) = c :: joinWith sep ls
  | [], h => absurd rfl h
  | [_], _ => rfl
  | _ :: _ :: _, _ => rfl

theorem joinWith_nil_cons (sep : Text) : ∀ {ls : List Text}, ls ≠ [] →
    joinWith sep ([] :: ls) = sep ++ joinWith sep ls
  | [], h => absurd rfl h
  | _ :: _, _ => rfl

theorem splitAt_append_cons {sep : Char} : ∀ {t : Text}, sep ∉ t → ∀ r : Text,
    splitAt sep (t ++ sep :: r) = t :: splitAt sep r
  | [], _, r => by rw [List.nil_append, splitAt, if_pos rfl]
  | c :: t, h, r => by
    obtain ⟨hc, ht⟩ := not_or.mp (mt List.mem_cons.mpr h)
    rw [List.cons_append, splitAt, if_neg (Ne.symm hc), splitAt_append_cons ht]
    rfl

theorem splitAt_of_not_mem {sep : Char} : ∀ {t : Text}, sep ∉ t → splitAt sep t = [t]
  | [], _ => rfl
  | c :: t, h => by
    obtain ⟨hc, ht⟩ := not_or.mp (mt List.mem_cons.mpr h)
    rw [splitAt, if_neg (Ne.symm hc), splitAt_of_not_mem ht]
    rfl

/-- Pieces that are joined by a character in none of them are split there again. -/
theorem splitAt_joinWith {sep : Char} : ∀ {ts : List Text}, ts ≠ [] → (∀ t ∈ ts, sep ∉ t) →
    splitAt sep (joinWith [sep] ts) = ts
  | [], h, _ => absurd rfl h
  | [t], _, h => splitAt_of_not_mem (h t (List.mem_cons_self ..))
  | t :: u :: ts, _, h => by
    have ih : splitAt sep (joinWith [sep] (u :: ts)) = u :: ts :=
      splitAt_joinWith (by simp) fun x hx => h x (List.mem_cons_of_mem _ hx)
    rw [joinWith, List.append_assoc, List.singleton_append,
      splitAt_append_cons (h t (List.mem_cons_self ..)), ih]

theorem ofNat_ne_nil (n : Nat) : ofNat n ≠ [] :=
  List.ne_nil_of_length_pos Nat.length_toDigits_pos

/-- No piece of a text that is split holds the separator. -/
theorem not_mem_of_mem_splitAt {sep : Char} : ∀ {t p : Text}, p ∈ splitAt sep t → sep ∉ p
  | [], p, h => by
    rw [List.mem_singleton.mp h]
    exact List.not_mem_nil
  | c :: r, p, h => by
    rw [splitAt] at h
    split_ifs at h with hc
    · rcases List.mem_cons.mp h with rfl | h
      · exact List.not_mem_nil
      · exact not_mem_of_mem_splitAt h
    · cases hs : splitAt sep r with
      | nil =>
        rw [hs] at h
        rw [List.mem_singleton.mp h]
        simpa using Ne.symm hc
      | cons first rest =>
        have ih : ∀ {q}, q ∈ first :: rest → sep ∉ q := fun hq =>
          not_mem_of_mem_splitAt (hs.symm ▸ hq)
        rw [hs] at h
        rcases List.mem_cons.mp h with rfl | h
        · exact fun hm => (List.mem_cons.mp hm).elim (Ne.symm hc) (ih (List.mem_cons_self ..))
        · exact ih (List.mem_cons_of_mem _ h)

/-- A text without carriage returns is its lines with line feeds between. -/
theorem joinWith_lines {t : Text} (h : '\r' ∉ t) : joinWith ['\n'] t.lines = t := by
  fun_induction lines t with
  | case1 => rfl
  | case2 r _ | case3 r _ _ => exact absurd (List.mem_cons_self ..) h
  | case4 r ih =>
    rw [joinWith_nil_cons _ (lines_ne_nil r), ih fun hr => h (List.mem_cons_of_mem _ hr)]
    rfl
  | case5 c r _ _ _ ih =>
    rw [joinWith_consHead _ _ (lines_ne_nil r), ih fun hr => h (List.mem_cons_of_mem _ hr)]

end Text

/-! ### Trimmed blocks of lines -/

/-- The first line begins and the last line ends with a character that is not
blank. -/
def TrimmedLines (ls : List Text) : Prop :=
  (∀ l, ls.head? = some l → ∃ c, l.head? = some c ∧ isBlank c = false) ∧
  ∀ l, ls.getLast? = some l → ∃ c, l.getLast? = some c ∧ isBlank c = false

namespace Text

theorem lines_getLast {c : Char} (hc : isBlank c = false) (t : Text) : t.getLast? = some c →
    ∃ l, t.lines.getLast? = some l ∧ l.getLast? = some c := by
  have hr : isBlank '\r' = true := by decide
  have hn : isBlank '\n' = true := by decide
  fun_induction lines t with
  | case1 => intro h; simp at h
  | case2 r ih =>
    intro h
    cases r with
    | nil =>
      simp only [List.getLast?_cons_cons, List.getLast?_singleton, Option.some.injEq] at h
      simp [← h, hn] at hc
    | cons d r =>
      obtain ⟨l, hl, hlc⟩ := ih (by simpa [List.getLast?_cons_cons] using h)
      refine ⟨l, ?_, hlc⟩
      rw [List.getLast?_cons_of_ne_nil (lines_ne_nil _), hl]
  | case3 r _ ih | case4 r ih =>
    intro h
    cases r with
    | nil => simp only [List.getLast?_singleton, Option.some.injEq] at h; simp [← h, hn, hr] at hc
    | cons d r =>
      obtain ⟨l, hl, hlc⟩ := ih (by simpa [List.getLast?_cons_cons] using h)
      refine ⟨l, ?_, hlc⟩
      rw [List.getLast?_cons_of_ne_nil (lines_ne_nil _), hl]
  | case5 d r _ _ _ ih =>
    intro h
    cases r with
    | nil => exact ⟨[d], by simp [lines, consHead], by simpa using h⟩
    | cons e r =>
      obtain ⟨l, hl, hlc⟩ := ih (by simpa [List.getLast?_cons_cons] using h)
      cases hls : lines (e :: r) with
      | nil => exact absurd hls (lines_ne_nil _)
      | cons a ls =>
        rw [hls] at hl
        cases ls with
        | nil =>
          rw [List.getLast?_singleton, Option.some.injEq] at hl
          refine ⟨d :: a, rfl, ?_⟩
          rw [List.getLast?_cons_of_ne_nil, hl, hlc]
          rintro rfl
          simp [← hl] at hlc
        | cons b ls => exact ⟨l, by simpa [consHead, List.getLast?_cons_cons] using hl, hlc⟩

/-- The lines of a trimmed text are trimmed. -/
theorem trimmedLines_strip (t : Text) (h0 : t.strip ≠ []) : TrimmedLines t.strip.lines := by
  constructor
  · intro l hl
    cases hs : t.strip with
    | nil => exact absurd hs h0
    | cons c r =>
      have hc : isBlank c = false := strip_head (t := t) (by rw [hs]; rfl)
      rw [hs, lines_cons (by rintro rfl; exact absurd hc (by decide))
        (by rintro rfl; exact absurd hc (by decide))] at hl
      refine ⟨c, ?_, hc⟩
      cases hls : lines r with
      | nil => exact absurd hls (lines_ne_nil r)
      | cons a ls =>
        rw [hls] at hl
        simp only [consHead, List.head?_cons, Option.some.injEq] at hl
        rw [← hl, List.head?_cons]
  · intro l hl
    obtain ⟨c, hc⟩ : ∃ c, t.strip.getLast? = some c :=
      Option.isSome_iff_exists.mp (by simp [List.getLast?_isSome, h0])
    have hb := strip_getLast hc
    obtain ⟨l', hl', hlc⟩ := lines_getLast hb t.strip hc
    rw [hl, Option.some.injEq] at hl'
    exact ⟨c, hl' ▸ hlc, hb⟩

/-- Trimmed lines make a trimmed text. -/
theorem strip_joinWith {ls : List Text} (h : TrimmedLines ls) (sep : Text) :
    (joinWith sep ls).strip = joinWith sep ls := by
  apply strip_eq_self
  · intro c hc
    cases ls with
    | nil => simp [joinWith] at hc
    | cons l ls =>
      obtain ⟨d, hd, hb⟩ := h.1 l rfl
      rw [head?_joinWith_cons hd, Option.some.injEq] at hc
      exact hc ▸ hb
  · intro c hc
    cases hls : ls.getLast? with
    | none => simp [List.getLast?_eq_none_iff.mp hls, joinWith] at hc
    | some l =>
      obtain ⟨d, hd, hb⟩ := h.2 l hls
      rw [getLast?_joinWith hls hd, Option.some.injEq] at hc
      exact hc ▸ hb

end Text
end Handout
