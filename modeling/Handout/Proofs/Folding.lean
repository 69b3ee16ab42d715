/-
# Folded scalars are read back

A scalar that is written plain or between single quotes is folded: a single space beyond the
last column becomes a line break with an indentation, and a run of line feeds is written with
one more. The reader passes the blanks between two words at once, and what it passes counts
as the same blanks again, as every line that follows a break begins with the indentation and
then with something solid.

So a text is taken apart as the reader meets it. A plain text is words with spaces between
them (`Words`), one between single quotes is characters, runs of spaces and runs of line
feeds (`Folds`), and the induction is on these parts. After a plain scalar the reader has
passed the end of the line, too, as it looks for more words there.

Key definitions: `Solid`, `LineStart`, `Words`, `Folds`.
Key theorems: `foldedFrom_spaces`, `foldedFrom_feeds`, `plainFrom_folded`,
`singleFrom_folded`.
-/
import Handout.Yaml.Reader
import Handout.Yaml.Writer
import Mathlib.Data.List.Basic
import Mathlib.Data.List.TakeWhile
import Mathlib.Tactic.Set

namespace Handout

/-! ### Runs of a character -/

/-- A text begins with a run of a character and goes on with another one. -/
theorem exists_run (c : Char) : ∀ t : Text, ∃ n r, t = List.replicate n c ++ r ∧ r.head? ≠ some c
  | [] => ⟨0, [], rfl, by simp⟩
  | d :: t => by
    by_cases h : d = c
    · obtain ⟨n, r, ht, hr⟩ := exists_run c t
      exact ⟨n + 1, r, by rw [h, ht]; rfl, hr⟩
    · exact ⟨0, d :: t, rfl, by simpa using h⟩

/-- Every character is visible ASCII, a space or a line feed. -/
def Ordinary (t : Text) : Prop := ∀ c ∈ t, isOrdinary c = true

theorem ordinary_append {a b : Text} : Ordinary (a ++ b) ↔ Ordinary a ∧ Ordinary b :=
  List.forall_mem_append

theorem ordinary_cons {c : Char} {r : Text} :
    Ordinary (c :: r) ↔ isOrdinary c = true ∧ Ordinary r :=
  List.forall_mem_cons

theorem ordinary_nil : Ordinary [] := by simp [Ordinary]

/-- A text does not begin with a separator. -/
def Solid (t : Text) : Prop := ∀ c, t.head? = some c → isSeparator c = false

theorem solid_nil : Solid [] := fun _ h => by cases h

theorem solid_cons {c : Char} (h : isSeparator c = false) (r : Text) : Solid (c :: r) := by
  intro d hd
  cases hd
  exact h

theorem isSeparator_of_isOrdinary {c : Char} (h : isOrdinary c = true) (hs : c ≠ ' ')
    (hn : c ≠ '\n') : isSeparator c = false := by
  have hother : ∀ d ∈ ['\t', '\u0085', '\u2028', '\u2029'], c ≠ d := by
    rintro d hd rfl
    simp only [List.mem_cons, List.not_mem_nil, or_false] at hd
    rcases hd with rfl | rfl | rfl | rfl <;> exact absurd h (by decide)
  simp only [List.forall_mem_cons] at hother
  simp [isSeparator, isLineBreak, hs, hn, hother]

/-! ### Passing blanks -/

namespace Cursor

theorem isMarker_of_column {c : Cursor} (h : c.column ≠ 0) : c.isMarker = false := by
  simp [isMarker, isOpening, isClosing, h]

end Cursor

theorem passBreaks_solid {x : Text} (h : Solid x) (tabs : Bool) (line column : Nat) :
    passBreaks tabs line column x = ([], ⟨x, line, column⟩) := by
  cases x with
  | nil => rfl
  | cons c r =>
    have hc := h c rfl
    simp only [isSeparator, Bool.or_eq_false_iff, beq_eq_false_iff_ne] at hc
    obtain ⟨⟨hspace, htab⟩, hbreak⟩ := hc
    simp [passBreaks, hspace, htab, hbreak]

/-- The indentation of a line that goes on with something solid is passed. -/
theorem passBreaks_indented {x : Text} (h : Solid x) (tabs : Bool) (line : Nat) :
    passBreaks tabs line 0 (' ' :: ' ' :: x) = ([], ⟨x, line, 2⟩) := by
  have := passBreaks_solid h tabs line 2
  simpa [passBreaks] using this

theorem passBreaks_feeds {x : Text} (h : Solid x) (tabs : Bool) : ∀ n line : Nat,
    passBreaks tabs line 0 (List.replicate n '\n' ++ (' ' :: ' ' :: x)) =
      (List.replicate n '\n', ⟨x, line + n, 2⟩)
  | 0, line => passBreaks_indented h tabs line
  | n + 1, line => by
    have ih := passBreaks_feeds h tabs n (line + 1)
    rw [List.replicate_succ, List.cons_append, passBreaks, if_neg (by simp), if_pos (by rfl)]
    simp only [ih]
    congr 2
    omega

namespace Cursor

theorem passBlanks_spaces {x : Text} (h : Solid x) (tabs : Bool) (n line column : Nat) :
    passBlanks tabs ⟨List.replicate n ' ' ++ x, line, column⟩ =
      (List.replicate n ' ', ⟨x, line, column + n⟩) := by
  set isSpace : Char → Bool := fun d => d == ' ' || (tabs && d == '\t') with hspace
  have hx : ∀ c, x.head? = some c → isSpace c = false ∧ isLineBreak c = false := by
    intro c hc
    have := h c hc
    simp only [isSeparator, Bool.or_eq_false_iff] at this
    simp [isSpace, this]
  have hrun : ∀ c ∈ List.replicate n ' ', isSpace c = true := by
    intro c hc
    rw [List.eq_of_mem_replicate hc]
    rfl
  have htake : (List.replicate n ' ' ++ x).takeWhile isSpace = List.replicate n ' ' := by
    rw [List.takeWhile_append_of_pos hrun]
    cases x with
    | nil => simp
    | cons c r => simp [(hx c rfl).1]
  have hdrop : (List.replicate n ' ' ++ x).dropWhile isSpace = x := by
    rw [List.dropWhile_append_of_pos hrun]
    cases x with
    | nil => rfl
    | cons c r => simp [(hx c rfl).1]
  unfold passBlanks
  simp only [← hspace, htake, hdrop, skip]
  cases x with
  | nil => simp
  | cons c r => simp [(hx c rfl).2]

theorem passBlanks_feed (tabs : Bool) (x : Text) (line column : Nat) :
    passBlanks tabs ⟨'\n' :: x, line, column⟩ =
      (foldedText '\n' (passBreaks tabs (line + 1) 0 x).1, (passBreaks tabs (line + 1) 0 x).2) := by
  simp [passBlanks, isLineBreak]

/-- A fold counts as a space. -/
theorem passBlanks_fold {x : Text} (h : Solid x) (tabs : Bool) (line column : Nat) :
    passBlanks tabs ⟨'\n' :: ' ' :: ' ' :: x, line, column⟩ = ([' '], ⟨x, line + 1, 2⟩) := by
  rw [passBlanks_feed, passBreaks_indented h]
  rfl

/-- Of a run of line feeds all but the first count. -/
theorem passBlanks_feeds {x : Text} (h : Solid x) (tabs : Bool) (n line column : Nat) :
    passBlanks tabs ⟨List.replicate (n + 2) '\n' ++ (' ' :: ' ' :: x), line, column⟩ =
      (List.replicate (n + 1) '\n', ⟨x, line + 1 + (n + 1), 2⟩) := by
  rw [List.replicate_succ, List.cons_append, passBlanks_feed, passBreaks_feeds h]
  rfl

end Cursor

/-! ### What is written -/

section

variable {quoted : Bool} {column : Nat} {before : Option Char} {t : Text}

/-- A character that is neither a separator nor a quote between quotes stands for
itself. -/
theorem foldedFrom_solid {c : Char} (h : isSeparator c = false) (hq : quoted = true → c ≠ '\'')
    (r : Text) : foldedFrom quoted column before (c :: r) =
      c :: foldedFrom quoted (column + 1) (some c) r := by
  have hn : c ≠ '\n' := by rintro rfl; cases h
  have hs : c ≠ ' ' := by rintro rfl; cases h
  rw [foldedFrom, if_neg hn, if_neg (fun hc => hs hc.1), if_neg (fun hc => hq hc.1 hc.2)]
  rfl

theorem foldedFrom_quote (r : Text) : foldedFrom true column before ('\'' :: r) =
    '\'' :: '\'' :: foldedFrom true (column + 2) (some '\'') r := by
  rw [foldedFrom, if_neg (by decide), if_neg (by simp), if_pos (by simp)]
  rfl

theorem foldedFrom_space_after (h : before = some ' ') (r : Text) :
    foldedFrom quoted column before (' ' :: r) =
      ' ' :: foldedFrom quoted (column + 1) (some ' ') r := by
  rw [foldedFrom, if_neg (by decide), if_neg (by simp [h]), if_neg (by simp)]
  rfl

theorem foldedFrom_spaces_after (t : Text) : ∀ n column : Nat,
    foldedFrom quoted column (some ' ') (List.replicate n ' ' ++ t) =
      List.replicate n ' ' ++ foldedFrom quoted (column + n) (some ' ') t
  | 0, _ => rfl
  | n + 1, column => by
    rw [List.replicate_succ, List.cons_append, foldedFrom_space_after rfl,
      foldedFrom_spaces_after t n, List.cons_append]
    congr 3
    omega

/-- A run of spaces is written as it is, or it is one space and becomes a fold. -/
theorem foldedFrom_spaces (quoted : Bool) (column : Nat) (before : Option Char) (t : Text)
    (n : Nat) :
    (n = 0 ∧ foldedFrom quoted column before (List.replicate (n + 1) ' ' ++ t) =
        '\n' :: ' ' :: ' ' :: foldedFrom quoted 2 (some ' ') t) ∨
      foldedFrom quoted column before (List.replicate (n + 1) ' ' ++ t) =
        List.replicate (n + 1) ' ' ++ foldedFrom quoted (column + (n + 1)) (some ' ') t := by
  rw [List.replicate_succ, List.cons_append, foldedFrom, if_neg (by decide)]
  split_ifs with hfold hquote
  · left
    obtain ⟨-, -, hnext, -⟩ := hfold
    cases n with
    | zero => exact ⟨rfl, rfl⟩
    | succ n => simp [List.replicate_succ] at hnext
  · exact absurd hquote.2 (by decide)
  · right
    rw [foldedFrom_spaces_after, List.cons_append, Nat.add_assoc, Nat.add_comm 1 n]
    rfl

theorem foldedFrom_feeds_after (ht : t.head? ≠ some '\n') : ∀ n column : Nat,
    foldedFrom quoted column (some '\n') (List.replicate (n + 1) '\n' ++ t) =
      List.replicate (n + 1) '\n' ++ (' ' :: ' ' :: foldedFrom quoted 2 (some '\n') t)
  | 0, column => by
    have hnext : ¬ t.head? = some '\n' := ht
    simp [foldedFrom, hnext]
  | n + 1, column => by
    have ih := foldedFrom_feeds_after ht n 2
    rw [List.replicate_succ, List.cons_append, foldedFrom, if_pos rfl, if_pos rfl,
      if_pos (by simp [List.replicate_succ]), ih]
    rfl

/-- A run of line feeds is written with one more and the indentation of the next line. -/
theorem foldedFrom_feeds (hb : before ≠ some '\n') (ht : t.head? ≠ some '\n') (n : Nat) :
    foldedFrom quoted column before (List.replicate (n + 1) '\n' ++ t) =
      List.replicate (n + 2) '\n' ++ (' ' :: ' ' :: foldedFrom quoted 2 (some '\n') t) := by
  rw [List.replicate_succ, List.cons_append, foldedFrom, if_pos rfl, if_neg hb]
  cases n with
  | zero =>
    have hnext : ¬ t.head? = some '\n' := ht
    simp [hnext, List.replicate_succ]
  | succ n =>
    rw [foldedFrom_feeds_after ht, if_pos (by simp [List.replicate_succ])]
    simp [List.replicate_succ]

end

/-- No character is lost. -/
theorem length_le_foldedFrom (quoted : Bool) : ∀ (t : Text) (column : Nat) (before : Option Char),
    t.length ≤ (foldedFrom quoted column before t).length
  | [], _, _ => Nat.le_refl _
  | c :: r, column, before => by
    have ih := fun column => length_le_foldedFrom quoted r column (some c)
    have ih2 := ih 2
    have ihq := ih (column + 2)
    have ihc := ih (column + 1)
    rw [foldedFrom]
    by_cases hn : c = '\n'
    · rw [if_pos hn]
      by_cases hb : before = some '\n'
      · simp only [hb, ↓reduceIte, List.length_append, List.length_cons, List.length_nil]
        omega
      · simp only [hb, ↓reduceIte, List.length_append, List.length_cons, List.length_nil]
        omega
    · rw [if_neg hn]
      split
      · simp only [List.length_append, List.length_cons, List.length_nil]
        omega
      · split
        · simp only [List.length_append, List.length_cons, List.length_nil]
          omega
        · simp only [List.length_append, List.length_cons, List.length_nil]
          omega

/-! ### Plain texts -/

/-- What a line of a document begins with: a lower-case letter of a key or the dash of an
item. The end of the document counts as well. -/
def LineStart (t : Text) : Prop :=
  t = [] ∨ (∃ c r, t = c :: r ∧ 'a' ≤ c ∧ c ≤ 'z') ∨ ∃ r, t = '-' :: ' ' :: r

/-- Words with spaces between them. -/
inductive Words : Text → Prop
  | last {w : Text} (ne_nil : w ≠ []) (solid : ∀ c ∈ w, isSeparator c = false) : Words w
  | more {w t : Text} (ne_nil : w ≠ []) (solid : ∀ c ∈ w, isSeparator c = false) (n : Nat)
      (words : Words t) : Words (w ++ (List.replicate (n + 1) ' ' ++ t))

/-- The first word, behind which a space or nothing follows. -/
theorem Words.exists_word {t : Text} (h : Words t) : ∃ c w u, t = c :: w ++ u ∧
    (∀ d ∈ c :: w, isSeparator d = false) ∧ (u = [] ∨ u.head? = some ' ') := by
  cases h with
  | @last w ne_nil solid =>
    obtain ⟨c, w, rfl⟩ := List.exists_cons_of_ne_nil ne_nil
    exact ⟨c, w, [], (List.append_nil _).symm, solid, .inl rfl⟩
  | @more w t ne_nil solid n words =>
    obtain ⟨c, w, rfl⟩ := List.exists_cons_of_ne_nil ne_nil
    exact ⟨c, w, _, rfl, solid, .inr (by simp [List.replicate_succ])⟩

/-- A text without line feeds and without spaces at its ends is made of words. -/
theorem words_of {t : Text} (ho : ∀ c ∈ t, c = ' ' ∨ isSeparator c = false) (h0 : t ≠ [])
    (hh : t.head? ≠ some ' ') (hl : t.getLast? ≠ some ' ') : Words t := by
  have hw : ∀ c ∈ t.takeWhile (· ≠ ' '), isSeparator c = false := by
    intro c hc
    have hne : c ≠ ' ' := by simpa using List.mem_takeWhile_imp hc
    exact (ho c ((List.takeWhile_sublist _).subset hc)).resolve_left hne
  have hne : t.takeWhile (· ≠ ' ') ≠ [] := by
    obtain ⟨c, r, rfl⟩ := List.exists_cons_of_ne_nil h0
    have hc : c ≠ ' ' := by simpa using hh
    simp [hc]
  obtain ⟨n, r, hrest, hr⟩ := exists_run ' ' (t.dropWhile (· ≠ ' '))
  have ht : t = t.takeWhile (· ≠ ' ') ++ (List.replicate n ' ' ++ r) := by
    rw [← hrest, List.takeWhile_append_dropWhile]
  by_cases hr0 : r = []
  · -- Then there is no run, as the text would end with it.
    have hn : n = 0 := by
      by_contra hn
      obtain ⟨m, rfl⟩ := Nat.exists_eq_succ_of_ne_zero hn
      apply hl
      rw [ht, hr0, List.append_nil, List.replicate_succ', ← List.append_assoc,
        List.getLast?_concat]
    rw [ht, hr0, hn, List.replicate_zero, List.nil_append, List.append_nil]
    exact .last hne hw
  · have hn : n ≠ 0 := by
      rintro rfl
      obtain ⟨c, r', rfl⟩ := List.exists_cons_of_ne_nil hr0
      have hhead := List.head?_dropWhile_not (fun c : Char => decide (c ≠ ' ')) t
      rw [hrest] at hhead
      simp at hhead hr
      exact hr hhead
    obtain ⟨m, rfl⟩ := Nat.exists_eq_succ_of_ne_zero hn
    have hsub : r.Sublist t := by
      rw [ht]
      exact (List.sublist_append_right _ r).trans (List.sublist_append_right _ _)
    have hlen : r.length < t.length := by
      rw [ht]
      simp only [List.length_append, List.length_replicate]
      omega
    have hlast : r.getLast? ≠ some ' ' := by
      rwa [ht, ← List.append_assoc, List.getLast?_append_of_ne_nil _ hr0] at hl
    rw [ht]
    exact .more hne hw m (words_of (fun c hc => ho c (hsub.subset hc)) hr0 hr hlast)
termination_by t.length

/-! ### Plain scalars -/

theorem breaksPlain_append {w u : Text} : ∀ {before : Char}, breaksPlain before (w ++ u) = false →
    ∃ b, (w ≠ [] → w.getLast? = some b) ∧ breaksPlain b u = false := by
  induction w with
  | nil => exact fun {before} h => ⟨before, fun hn => absurd rfl hn, h⟩
  | cons c w ih =>
    intro before h
    rw [List.cons_append, breaksPlain, Bool.or_eq_false_iff] at h
    obtain ⟨b, hb, hu⟩ := ih h.2
    cases w with
    | nil => exact ⟨c, fun _ => rfl, h.2⟩
    | cons d w => exact ⟨b, fun _ => by rw [List.getLast?_cons_cons]; exact hb (by simp), hu⟩

theorem breaksPlain_behind_spaces {b : Char} {w t : Text} {n : Nat}
    (h : breaksPlain b (w ++ (List.replicate (n + 1) ' ' ++ t)) = false) :
    breaksPlain ' ' t = false := by
  rw [← List.append_assoc] at h
  obtain ⟨c, hlast, hc⟩ := breaksPlain_append h
  have hlast := hlast (by simp)
  rw [List.replicate_succ', ← List.append_assoc, List.getLast?_concat] at hlast
  cases hlast
  exact hc

/-- A piece of a plain scalar ends where its word ends. -/
theorem plainRun_word {w u u' : Text} (hw : ∀ c ∈ w, isSeparator c = false)
    (hu : beginsBlank u = true) (hu' : beginsBlank u' = true) : ∀ {before : Char},
    breaksPlain before (w ++ u) = false → plainRun false (w ++ u') = w := by
  induction w with
  | nil =>
    intro before _
    cases u' with
    | nil => rfl
    | cons c r =>
      have hc : isSeparator c = true := hu'
      simp [plainRun, hc]
  | cons c w ih =>
    intro before h
    rw [List.forall_mem_cons] at hw
    simp only [List.cons_append, breaksPlain, Bool.or_eq_false_iff, Bool.and_eq_false_iff] at h
    obtain ⟨⟨hcolon, -⟩, hrest⟩ := h
    have hend : c = ':' → endsKey false (w ++ u') = false := by
      rintro rfl
      have hblank : beginsBlank (w ++ u) = false := hcolon.resolve_left (by simp)
      cases w with
      | nil => rw [List.nil_append, hu] at hblank; cases hblank
      | cons d w =>
        have hd : isSeparator d = false := hblank
        simp [endsKey, hd]
    rw [List.cons_append, plainRun, ih hw.2 hrest]
    simp only [hw.1, Bool.false_or, Bool.false_and, Bool.or_false, Bool.and_eq_true,
      decide_eq_true_eq]
    rw [if_neg]
    rintro ⟨hc, he⟩
    rw [hend hc] at he
    cases he

theorem foldedFrom_word {w : Text} (hw : ∀ c ∈ w, isSeparator c = false) (u : Text) :
    ∀ (column : Nat) (before : Option Char), ∃ column' before',
      foldedFrom false column before (w ++ u) = w ++ foldedFrom false column' before' u := by
  induction w with
  | nil => exact fun column before => ⟨column, before, rfl⟩
  | cons c w ih =>
    intro column before
    rw [List.forall_mem_cons] at hw
    obtain ⟨column', before', h⟩ := ih hw.2 (column + 1) (some c)
    exact ⟨column', before', by rw [List.cons_append, foldedFrom_solid hw.1 (by simp), h]; rfl⟩

/-- After a word a text is blank, and so is what is written for it. -/
theorem beginsBlank_foldedFrom {u : Text} (h : u = [] ∨ u.head? = some ' ') (column : Nat)
    (before : Option Char) (x : Text) :
    beginsBlank (foldedFrom false column before u ++ '\n' :: x) = true := by
  rcases h with rfl | h
  · rfl
  · obtain ⟨r, rfl⟩ := List.head?_eq_some_iff.mp h
    rw [foldedFrom, if_neg (by decide)]
    split
    · rfl
    · rw [if_neg (by simp)]
      rfl

/-- The first piece of what is written for words is the first word. -/
theorem plainRun_foldedFrom {w u : Text} (hw : ∀ c ∈ w, isSeparator c = false)
    (hu : u = [] ∨ u.head? = some ' ') {b : Char} (hb : breaksPlain b (w ++ u) = false)
    (column : Nat) (before : Option Char) (x : Text) :
    plainRun false (foldedFrom false column before (w ++ u) ++ '\n' :: x) = w := by
  obtain ⟨column', before', h⟩ := foldedFrom_word hw u column before
  have hblank : beginsBlank u = true := by
    rcases hu with rfl | hu
    · rfl
    · obtain ⟨r, rfl⟩ := List.head?_eq_some_iff.mp hu
      rfl
  rw [h, List.append_assoc]
  exact plainRun_word hw hblank (beginsBlank_foldedFrom hu column' before' x) hb

theorem LineStart.solid {x : Text} (h : LineStart x) : Solid x := by
  rcases h with rfl | ⟨c, r, rfl, ha, hz⟩ | ⟨r, rfl⟩
  · exact solid_nil
  · refine solid_cons ?_ r
    have hs : ∀ d ∈ [' ', '\t', '\n', '\u0085', '\u2028', '\u2029'], c ≠ d := by
      rintro d hd rfl
      simp only [List.mem_cons, List.not_mem_nil, or_false] at hd
      rcases hd with rfl | rfl | rfl | rfl | rfl | rfl
      all_goals first | exact absurd ha (by decide) | exact absurd hz (by decide)
    simp only [List.forall_mem_cons] at hs
    simp [isSeparator, isLineBreak, hs]
  · exact solid_cons (by decide) _

/-- Whether spaces are folded or not, they are passed at once and count as what they
are. -/
theorem passBlanks_foldedFrom {quoted : Bool} {t y : Text}
    (h : ∀ column, Solid (foldedFrom quoted column (some ' ') t ++ y)) (tabs : Bool)
    (n column : Nat) (before : Option Char) (line place : Nat) :
    ∃ c s column' line' place', isSeparator c = true ∧
      foldedFrom quoted column before (List.replicate (n + 1) ' ' ++ t) =
        c :: (s ++ foldedFrom quoted column' (some ' ') t) ∧
      (2 = place' ∨ place < place') ∧ Cursor.passBlanks tabs
        ⟨c :: (s ++ foldedFrom quoted column' (some ' ') t ++ y), line, place⟩ =
          (List.replicate (n + 1) ' ',
            ⟨foldedFrom quoted column' (some ' ') t ++ y, line', place'⟩) := by
  rcases foldedFrom_spaces quoted column before t n with ⟨rfl, hfold⟩ | hspaces
  · exact ⟨'\n', [' ', ' '], 2, line + 1, 2, by decide, hfold, .inl rfl,
      Cursor.passBlanks_fold (h 2) tabs line place⟩
  · have hpass := Cursor.passBlanks_spaces (h (column + (n + 1))) tabs (n + 1) line place
    rw [List.replicate_succ, List.cons_append, ← List.append_assoc] at hpass
    exact ⟨' ', List.replicate n ' ', _, line, _, by decide, hspaces, .inr (by omega), hpass⟩

namespace Cursor

/-- After a piece and some blanks a plain scalar goes on with the next piece. -/
theorem plainFrom_more {fuel : Nat} {c next : Cursor} {run blanks : Text}
    (hrun : plainRun false c.rest = run)
    (hpass : (c.skip run.length).passBlanks false = (blanks, next)) (hb : blanks ≠ [])
    (hcolumn : 0 < next.column) (hmark : next.rest.head? ≠ some '#')
    (hnext : plainRun false next.rest ≠ []) : plainFrom false 1 (fuel + 1) c =
      (run ++ blanks ++ (plainFrom false 1 fuel next).1, (plainFrom false 1 fuel next).2) := by
  have hmarker : next.isMarker = false := isMarker_of_column (by omega)
  have hless : ¬ next.column < 1 := by omega
  rw [plainFrom, hrun]
  simp [hpass, hb, hmarker, hmark, hless, hnext]

/-- The last word of a plain scalar ends at the end of its line. -/
theorem plainFrom_last {x : Text} (hx : LineStart x) {w : Text} (ne_nil : w ≠ [])
    (solid : ∀ c ∈ w, isSeparator c = false) {b : Char} (hb : breaksPlain b w = false) {fuel : Nat}
    (hf : w.length ≤ fuel) (column : Nat) (before : Option Char) (line place : Nat) :
    plainFrom false 1 fuel ⟨foldedFrom false column before w ++ '\n' :: x, line, place⟩ =
      (w, ⟨x, line + 1, 0⟩) := by
  obtain ⟨fuel, rfl⟩ : ∃ m, fuel = m + 1 :=
    Nat.exists_eq_succ_of_ne_zero (by have := List.length_pos_iff.mpr ne_nil; omega)
  obtain ⟨column', before', hwritten⟩ := foldedFrom_word solid [] column before
  have hrun := plainRun_foldedFrom (u := []) solid (.inl rfl) (by rwa [List.append_nil])
    column before x
  simp only [List.append_nil, foldedFrom] at hwritten hrun
  rw [hwritten] at hrun
  have hpass : ((⟨w ++ '\n' :: x, line, place⟩ : Cursor).skip w.length).passBlanks false =
      ([' '], ⟨x, line + 1, 0⟩) := by
    rw [skip, List.drop_left, passBlanks_feed, passBreaks_solid hx.solid]
    rfl
  rw [hwritten, plainFrom, hrun]
  simp [hpass]

/-- **A plain scalar is read back.** The induction is on its words; the reader passes the
spaces or the fold between two of them, and behind the last one the end of the line. -/
theorem plainFrom_folded {x : Text} (hx : LineStart x) {t : Text} (h : Words t) :
    ∀ {b : Char}, breaksPlain b t = false → ∀ fuel : Nat, t.length ≤ fuel →
    ∀ (column : Nat) (before : Option Char) (line place : Nat), ∃ line', plainFrom false 1 fuel
      ⟨foldedFrom false column before t ++ '\n' :: x, line, place⟩ = (t, ⟨x, line', 0⟩) := by
  induction h with
  | @last w ne_nil solid =>
    intro b hb fuel hf column before line place
    exact ⟨line + 1, plainFrom_last hx ne_nil solid hb hf column before line place⟩
  | @more w t ne_nil solid n words ih =>
    intro b hb fuel hf column before line place
    have hw := List.length_pos_iff.mpr ne_nil
    rw [List.length_append, List.length_append, List.length_replicate] at hf
    obtain ⟨fuel, rfl⟩ : ∃ m, fuel = m + 1 := Nat.exists_eq_succ_of_ne_zero (by omega)
    have hrun := plainRun_foldedFrom solid (.inr (by simp [List.replicate_succ])) hb column before x
    have hb' : breaksPlain ' ' t = false := breaksPlain_behind_spaces hb
    obtain ⟨c, w', u, rfl, hsolid, hu⟩ := words.exists_word
    have hc : isSeparator c = false := hsolid c (List.mem_cons_self ..)
    have hhead : ∀ column', foldedFrom false column' (some ' ') (c :: w' ++ u) ++ '\n' :: x =
        c :: (foldedFrom false (column' + 1) (some c) (w' ++ u) ++ '\n' :: x) := fun column' => by
      rw [List.cons_append, foldedFrom_solid hc (by simp), List.cons_append]
    obtain ⟨col, before', hwritten⟩ :=
      foldedFrom_word solid (List.replicate (n + 1) ' ' ++ (c :: w' ++ u)) column before
    obtain ⟨d, s, column', line', place', -, hspaces, hplace, hpass⟩ :=
      passBlanks_foldedFrom (y := '\n' :: x) (fun column' => hhead column' ▸ solid_cons hc _)
        false n col before' line (place + w.length)
    have hmark : c ≠ '#' := by
      rintro rfl
      simp [breaksPlain, isSeparator] at hb'
    obtain ⟨line'', hmore⟩ := ih hb' fuel (by omega) column' (some ' ') line' place'
    refine ⟨line'', ?_⟩
    have hpass' : ((⟨foldedFrom false column before (w ++ (List.replicate (n + 1) ' ' ++
        (c :: w' ++ u))) ++ '\n' :: x, line, place⟩ : Cursor).skip w.length).passBlanks false =
          (List.replicate (n + 1) ' ',
            ⟨foldedFrom false column' (some ' ') (c :: w' ++ u) ++ '\n' :: x, line', place'⟩) := by
      rw [hwritten, hspaces, skip, List.append_assoc, List.drop_left]
      exact hpass
    rw [plainFrom_more hrun hpass' (by simp) ?_ ?_ ?_, hmore, List.append_assoc]
    · show 0 < place'
      omega
    · show (foldedFrom false column' (some ' ') (c :: w' ++ u) ++ '\n' :: x).head? ≠ some '#'
      rw [hhead]
      simpa using hmark
    · rw [plainRun_foldedFrom hsolid hu hb' column' (some ' ') x]
      simp

end Cursor

/-! ### Texts between single quotes -/

/-- Characters, runs of spaces and runs of line feeds; no run stands next to another
one. -/
inductive Folds : Text → Prop
  | nil : Folds []
  | char {c : Char} {t : Text} (solid : isSeparator c = false) (more : Folds t) : Folds (c :: t)
  | spaces {t : Text} (n : Nat) (apart : Solid t) (more : Folds t) :
      Folds (List.replicate (n + 1) ' ' ++ t)
  | feeds {t : Text} (n : Nat) (apart : Solid t) (more : Folds t) :
      Folds (List.replicate (n + 1) '\n' ++ t)

theorem hasSpaceAtBreak_of_append {a b : Text} (h : hasSpaceAtBreak (a ++ b) = false) :
    hasSpaceAtBreak b = false := by
  induction a with
  | nil => exact h
  | cons c a ih =>
    apply ih
    rw [List.cons_append] at h
    cases hab : a ++ b with
    | nil => rfl
    | cons d r =>
      rw [hab] at h
      unfold hasSpaceAtBreak at h
      split at h <;> simp_all

/-- A run of blanks ends before something solid, if no space stands next to a line feed. -/
theorem exists_blankRun {c d : Char} (hcd : c = ' ' ∧ d = '\n' ∨ c = '\n' ∧ d = ' ') {r : Text}
    (ho : Ordinary (c :: r)) (h : hasSpaceAtBreak (c :: r) = false) :
    ∃ n t, c :: r = List.replicate (n + 1) c ++ t ∧ Solid t := by
  obtain ⟨n, t, ht, hne⟩ := exists_run c r
  refine ⟨n, t, by rw [ht, List.replicate_succ, List.cons_append], fun x hx => ?_⟩
  have hxc : x ≠ c := by
    rintro rfl
    exact hne hx
  have hxd : x ≠ d := by
    rintro rfl
    obtain ⟨t, rfl⟩ := List.head?_eq_some_iff.mp hx
    have hlast : c :: r = List.replicate n c ++ (c :: x :: t) := by
      rw [ht, ← List.cons_append, ← List.replicate_succ, List.replicate_succ', List.append_assoc]
      rfl
    rw [hlast] at h
    have hpair := hasSpaceAtBreak_of_append h
    rcases hcd with ⟨rfl, rfl⟩ | ⟨rfl, rfl⟩
    · cases hpair
    · cases hpair
  have hmem : x ∈ c :: r := by
    rw [ht]
    exact List.mem_cons_of_mem _ (List.mem_append_right _ (List.mem_of_head? hx))
  rcases hcd with ⟨rfl, rfl⟩ | ⟨rfl, rfl⟩
  · exact isSeparator_of_isOrdinary (ho x hmem) hxc hxd
  · exact isSeparator_of_isOrdinary (ho x hmem) hxd hxc

/-- Ordinary text without a space next to a line feed is made of such parts. -/
theorem folds_of : ∀ {t : Text}, Ordinary t → hasSpaceAtBreak t = false → Folds t
  | [], _, _ => .nil
  | c :: r, ho, h => by
    by_cases hblank : c = ' ' ∨ c = '\n'
    · obtain ⟨n, t, ht, hsolid⟩ : ∃ n t, c :: r = List.replicate (n + 1) c ++ t ∧ Solid t := by
        rcases hblank with rfl | rfl
        · exact exists_blankRun (.inl ⟨rfl, rfl⟩) ho h
        · exact exists_blankRun (.inr ⟨rfl, rfl⟩) ho h
      have hlen : t.length < (c :: r).length := by
        rw [ht, List.length_append, List.length_replicate]
        omega
      rw [ht] at ho h ⊢
      have hfolds : Folds t := folds_of (fun x hx => ho x (List.mem_append_right _ hx))
        (hasSpaceAtBreak_of_append h)
      rcases hblank with rfl | rfl
      · exact .spaces n hsolid hfolds
      · exact .feeds n hsolid hfolds
    · rw [not_or] at hblank
      have hc := isSeparator_of_isOrdinary (ho c (List.mem_cons_self ..)) hblank.1 hblank.2
      exact .char hc (folds_of (fun x hx => ho x (List.mem_cons_of_mem _ hx))
        (hasSpaceAtBreak_of_append (a := [c]) h))
termination_by t => t.length
decreasing_by
  · exact hlen
  · exact Nat.lt_succ_self _

namespace Cursor

theorem singleFrom_char {c : Char} (hc : isSeparator c = false) (hq : c ≠ '\'') (fuel : Nat)
    (x : Text) (line column : Nat) : singleFrom (fuel + 1) ⟨c :: x, line, column⟩ =
      prepend [c] (singleFrom fuel ⟨x, line, column + 1⟩) := by
  simp [singleFrom, hc, hq, skip]

theorem singleFrom_quote (fuel : Nat) (x : Text) (line column : Nat) :
    singleFrom (fuel + 1) ⟨'\'' :: '\'' :: x, line, column⟩ =
      prepend ['\''] (singleFrom fuel ⟨x, line, column + 2⟩) := rfl

theorem singleFrom_end {x : Text} (hx : x.head? ≠ some '\'') (fuel line column : Nat) :
    singleFrom (fuel + 1) ⟨'\'' :: x, line, column⟩ = some ([], ⟨x, line, column + 1⟩) := by
  cases x with
  | nil => rfl
  | cons c x =>
    have hc : c ≠ '\'' := by simpa using hx
    simp [singleFrom, hc, skip]

theorem singleFrom_blanks {c : Char} (hc : isSeparator c = true) {x blanks : Text}
    {line column : Nat}
    {next : Cursor} (h : passBlanks true ⟨c :: x, line, column⟩ = (blanks, next))
    (hn : next.column ≠ 0) (fuel : Nat) :
    singleFrom (fuel + 1) ⟨c :: x, line, column⟩ = prepend blanks (singleFrom fuel next) := by
  have hq : c ≠ '\'' := by
    rintro rfl
    cases hc
  simp [singleFrom, hc, hq, h, isMarker_of_column hn]

/-- What is written between single quotes begins with a blank only if the text does. -/
theorem solid_foldedFrom {t : Text} (ht : Solid t) (rest : Text) (column : Nat)
    (before : Option Char) : Solid (foldedFrom true column before t ++ '\'' :: rest) := by
  cases t with
  | nil => exact solid_cons (by decide) rest
  | cons c r =>
    have hc := ht c rfl
    by_cases hq : c = '\''
    · subst hq
      rw [foldedFrom_quote]
      exact solid_cons hc _
    · rw [foldedFrom_solid hc (fun _ => hq)]
      exact solid_cons hc _

/-- **A scalar between single quotes is read back.** The induction is on the characters and
runs of the text. -/
theorem singleFrom_folded {rest : Text} (hrest : rest.head? ≠ some '\'') {t : Text} (h : Folds t) :
    ∀ before : Option Char, (t.head? = some '\n' → before ≠ some '\n') →
    ∀ fuel column : Nat, (foldedFrom true column before t).length < fuel → ∀ line place : Nat,
    ∃ line' place', singleFrom fuel ⟨foldedFrom true column before t ++ '\'' :: rest, line, place⟩ =
      some (t, ⟨rest, line', place'⟩) := by
  induction h with
  | nil =>
    intro before _ fuel column hf line place
    obtain ⟨fuel, rfl⟩ : ∃ m, fuel = m + 1 := Nat.exists_eq_succ_of_ne_zero (by omega)
    exact ⟨line, place + 1, singleFrom_end hrest fuel line place⟩
  | @char c t solid more ih =>
    intro before _ fuel column hf line place
    obtain ⟨fuel, rfl⟩ : ∃ m, fuel = m + 1 := Nat.exists_eq_succ_of_ne_zero (by omega)
    have hbefore : t.head? = some '\n' → some c ≠ some '\n' := by
      rintro - ⟨⟩
      cases solid
    by_cases hq : c = '\''
    · subst hq
      rw [foldedFrom_quote] at hf ⊢
      obtain ⟨line', place', ih⟩ := ih _ hbefore fuel (column + 2)
        (by simp only [List.length_cons] at hf; omega) line (place + 2)
      exact ⟨line', place', by rw [List.cons_append, List.cons_append, singleFrom_quote, ih]; rfl⟩
    · rw [foldedFrom_solid solid (fun _ => hq)] at hf ⊢
      obtain ⟨line', place', ih⟩ := ih _ hbefore fuel (column + 1)
        (by simp only [List.length_cons] at hf; omega) line (place + 1)
      exact ⟨line', place', by rw [List.cons_append, singleFrom_char solid hq, ih]; rfl⟩
  | @spaces t n apart more ih =>
    intro before _ fuel column hf line place
    obtain ⟨fuel, rfl⟩ : ∃ m, fuel = m + 1 := Nat.exists_eq_succ_of_ne_zero (by omega)
    obtain ⟨c, s, column', line', place', hc, hspaces, hplace, hpass⟩ :=
      passBlanks_foldedFrom
        (fun column' => solid_foldedFrom apart rest column' (some ' ')) true n column before
        line place
    rw [hspaces, List.length_cons, List.length_append] at hf
    obtain ⟨line'', place'', ih⟩ := ih (some ' ') (by simp) fuel column'
      (by omega) line' place'
    refine ⟨line'', place'', ?_⟩
    rw [hspaces, List.cons_append, singleFrom_blanks hc hpass (show place' ≠ 0 by omega), ih]
    rfl
  | @feeds t n apart more ih =>
    intro before hb fuel column hf line place
    obtain ⟨fuel, rfl⟩ : ∃ m, fuel = m + 1 := Nat.exists_eq_succ_of_ne_zero (by omega)
    have hb : before ≠ some '\n' := hb (by simp [List.replicate_succ])
    have hne : t.head? ≠ some '\n' := fun he => absurd (apart _ he) (by decide)
    have hpass := passBlanks_feeds (solid_foldedFrom apart rest 2 (some '\n')) true n line place
    rw [foldedFrom_feeds hb hne] at hf ⊢
    simp only [List.length_append, List.length_replicate, List.length_cons] at hf
    obtain ⟨line', place', ih⟩ := ih (some '\n') (fun he => absurd he hne) fuel 2
      (by omega) (line + 1 + (n + 1)) 2
    refine ⟨line', place', ?_⟩
    rw [List.append_assoc, List.cons_append, List.cons_append]
    rw [List.replicate_succ, List.cons_append] at hpass ⊢
    rw [singleFrom_blanks (by decide) hpass (by simp), ih]
    rfl

theorem singleQuoted_folded (rest : Text) (hrest : rest.head? ≠ some '\'') {t : Text}
    (h : Folds t) (column line place : Nat) : ∃ line' place',
      singleQuoted ⟨'\'' :: (foldedFrom true column none t ++ '\'' :: rest), line, place⟩ =
        some (t, ⟨rest, line', place'⟩) := by
  have hfuel : (foldedFrom true column none t).length <
      ('\'' :: (foldedFrom true column none t ++ '\'' :: rest)).length := by
    simp only [List.length_cons, List.length_append]
    omega
  exact singleFrom_folded hrest h none (by simp) _ _ hfuel line (place + 1)

end Cursor

end Handout
