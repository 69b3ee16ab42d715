/-
# What the search for markers finds

An opening marker is `openingText name region` for a name and a region that make
one (`IsOpening`), a closing marker is `closingText name` for a name
(`IsName`), and nothing else is a marker. A marker ends at the first `>`, so
the search never carries anything over a `>`: it goes on behind a marker as if
the text began there (`scan_opening`, `scan_closing`), but for a closing marker
that the region of an opening one ends with (`scan_opening_swallow`).

A text is silent before another if no marker begins in it (`Silent`). What
follows matters only up to the next `>`. A text is plain if it is silent before
a line break and a `>` (`Plain`); it is then silent before every marker and
every blank, and a text that is silent before one marker is plain
(`Plain.silent`, `Silent.plain`).

Key definitions: `IsName`, `IsOpening`, `Swallows`, `marksAt`, `Silent`, `Plain`.
Key theorems: `opening?_eq_some_iff`, `closing?_eq_some_iff`, `scan_silent`,
`scan_opening`, `scan_opening_swallow`, `scan_closing`, `silent_or_scan`,
`Plain.silent`, `Silent.plain`.
-/
import Handout.Markup.Marker
import Handout.Render.Basic
import Mathlib.Data.List.Basic
import Mathlib.Data.List.TakeWhile

namespace Handout

/-! ### Words and regions -/

/-- A text that can be the name of a tag. -/
structure IsName (name : Text) : Prop where
  ne_nil : name ≠ []
  word : ∀ c ∈ name, isWord c = true

theorem IsName.of_all {name : Text} (h0 : name ≠ []) (h : name.all isWord = true) : IsName name :=
  ⟨h0, List.all_eq_true.mp h⟩

/-- A name and a region that make an opening marker. -/
structure IsOpening (name region : Text) : Prop where
  isName : IsName name
  head : ∀ c, region.head? = some c → isWord c = false
  not_mem : '>' ∉ region
  last : region.getLast? ≠ some '/'

/-- The region ends with all of a closing marker but its `>`. -/
def Swallows (region : Text) : Prop :=
  ∃ before name, IsName name ∧ region = before ++ ['/', '/', '<', '/'] ++ name

theorem IsName.not_mem {name : Text} (h : IsName name) {c : Char} (hc : isWord c = false) :
    c ∉ name := by
  intro hm
  simp [h.word c hm] at hc

theorem IsName.front_not_mem {name : Text} (h : IsName name) :
    '>' ∉ '/' :: '/' :: '<' :: '/' :: name := by
  simp [h.not_mem (c := '>') (by decide)]

/-- The name of an opening marker ends where its region begins. -/
theorem IsOpening.head_append {name region : Text} (h : IsOpening name region) (r : Text) :
    ∀ c, (region ++ '>' :: r).head? = some c → isWord c = false := by
  intro c hc
  cases region with
  | nil =>
    simp only [List.nil_append, List.head?_cons, Option.some.injEq] at hc
    rw [← hc]
    decide
  | cons d region => exact h.head c (by simpa using hc)

theorem IsOpening.front_not_mem {name region : Text} (h : IsOpening name region) :
    '>' ∉ '/' :: '/' :: '<' :: (name ++ region) := by
  simp [h.isName.not_mem (c := '>') (by decide), h.not_mem]

namespace Text

theorem word_append {w x : Text} (hw : ∀ c ∈ w, isWord c = true)
    (hx : ∀ c, x.head? = some c → isWord c = false) : (w ++ x).word = w := by
  rw [word, List.takeWhile_append_of_pos hw]
  cases x with
  | nil => simp
  | cons c r => simp [hx c rfl]

theorem afterWord_append {w x : Text} (hw : ∀ c ∈ w, isWord c = true)
    (hx : ∀ c, x.head? = some c → isWord c = false) : (w ++ x).afterWord = x := by
  rw [afterWord, List.dropWhile_append_of_pos hw]
  cases x with
  | nil => simp
  | cons c r => simp [hx c rfl]

theorem word_append_afterWord (t : Text) : t.word ++ t.afterWord = t :=
  List.takeWhile_append_dropWhile

theorem isWord_of_mem_word {t : Text} {c : Char} (h : c ∈ t.word) : isWord c = true :=
  List.mem_takeWhile_imp h

theorem head_afterWord {t : Text} {c : Char} (h : t.afterWord.head? = some c) :
    isWord c = false := by
  have := List.head?_dropWhile_not isWord t
  rw [afterWord] at h
  rw [h] at this
  simpa using this

/-- The first `x` of a text splits it in one way. -/
theorem split_first {x : Char} : ∀ {a b r s : Text}, x ∉ a → x ∉ b →
    a ++ x :: r = b ++ x :: s → a = b ∧ r = s
  | [], [], _, _, _, _, h => by simpa using h
  | [], d :: b, _, _, _, hb, h => by
    simp only [List.nil_append, List.cons_append, List.cons.injEq] at h
    simp [h.1] at hb
  | c :: a, [], _, _, ha, _, h => by
    simp only [List.nil_append, List.cons_append, List.cons.injEq] at h
    simp [h.1] at ha
  | c :: a, d :: b, r, s, ha, hb, h => by
    simp only [List.cons_append, List.cons.injEq] at h
    obtain ⟨h1, h2⟩ := split_first (fun hm => ha (List.mem_cons_of_mem _ hm))
      (fun hm => hb (List.mem_cons_of_mem _ hm)) h.2
    exact ⟨by rw [h.1, h1], h2⟩

/-- The last `x` of a text splits it in one way. -/
theorem split_last {x : Char} {a b r s : Text} (hr : x ∉ r) (hs : x ∉ s)
    (h : a ++ x :: r = b ++ x :: s) : a = b ∧ r = s := by
  have h' := congrArg List.reverse h
  simp only [List.reverse_append, List.reverse_cons, List.append_assoc, List.singleton_append] at h'
  obtain ⟨h1, h2⟩ := split_first (by simpa using hr) (by simpa using hs) h'
  exact ⟨List.reverse_injective h2, List.reverse_injective h1⟩

end Text

namespace Marker

theorem region?_append : ∀ {g : Text}, '>' ∉ g → ∀ r : Text, region? (g ++ '>' :: r) = some g
  | [], _, _ => by simp [region?]
  | c :: g, h, r => by
    have hc : c ≠ '>' := fun e => h (e ▸ List.mem_cons_self ..)
    rw [List.cons_append, region?, if_neg hc,
      region?_append (fun hm => h (List.mem_cons_of_mem _ hm)) r]
    rfl

theorem exists_of_region? : ∀ {t g : Text}, region? t = some g →
    '>' ∉ g ∧ ∃ r, t = g ++ '>' :: r
  | [], _, h => by simp [region?] at h
  | c :: t, g, h => by
    rw [region?] at h
    by_cases hc : c = '>'
    · rw [if_pos hc, Option.some.injEq] at h
      exact ⟨by simp [← h], t, by simp [← h, hc]⟩
    · rw [if_neg hc, Option.map_eq_some_iff] at h
      obtain ⟨g', hg', rfl⟩ := h
      obtain ⟨h1, r, h2⟩ := exists_of_region? hg'
      refine ⟨?_, r, by rw [h2, List.cons_append]⟩
      rintro (_ | ⟨_, hm⟩)
      · exact hc rfl
      · exact h1 hm

/-! ### The two sorts of markers -/

theorem openingText_eq (w g : Text) : openingText w g = '/' :: '/' :: '<' :: (w ++ g ++ ['>']) := by
  simp [openingText, commentMark]

theorem closingText_eq (w : Text) : closingText w = '/' :: '/' :: '<' :: '/' :: (w ++ ['>']) := by
  simp [closingText, commentMark]

theorem openingText_append (w g r : Text) :
    openingText w g ++ r = ('/' :: '/' :: '<' :: (w ++ g)) ++ '>' :: r := by
  simp [openingText_eq]

theorem closingText_append (w r : Text) :
    closingText w ++ r = ('/' :: '/' :: '<' :: '/' :: w) ++ '>' :: r := by
  simp [closingText_eq]

theorem length_openingText (w g : Text) :
    (openingText w g).length = 3 + w.length + g.length + 1 := by
  simp only [openingText_eq, List.length_cons, List.length_append, List.length_nil]
  omega

theorem length_closingText (w : Text) : (closingText w).length = 4 + w.length + 1 := by
  simp only [closingText_eq, List.length_cons, List.length_append, List.length_nil]
  omega

theorem opening?_openingText {w g : Text} (h : IsOpening w g) (s : Nat) (r : Text) :
    opening? s (openingText w g ++ r) = some ⟨s, (openingText w g).length, w, g⟩ := by
  have hx := h.head_append r
  have ht : openingText w g ++ r = '/' :: '/' :: '<' :: (w ++ (g ++ '>' :: r)) := by
    simp [openingText_eq]
  rw [ht, opening?, Text.word_append h.isName.word hx, Text.afterWord_append h.isName.word hx,
    region?_append h.not_mem]
  simp [h.isName.ne_nil, h.last, length_openingText]

theorem exists_of_opening? {s : Nat} {t : Text} {m : Opening} (h : opening? s t = some m) :
    IsOpening m.name m.region ∧ m.start = s ∧
      m.length = (openingText m.name m.region).length ∧
        ∃ r, t = openingText m.name m.region ++ r := by
  unfold opening? at h
  split at h
  · rename_i r
    by_cases hw : (Text.word r).isEmpty = true
    · simp [hw] at h
    · rw [if_neg hw] at h
      split at h
      · rename_i g hg
        obtain ⟨hgt, r', hr⟩ := exists_of_region? hg
        by_cases hl : g.getLast? = some '/'
        · simp [hl] at h
        · rw [if_neg hl, Option.some.injEq] at h
          subst h
          refine ⟨⟨⟨by simpa using hw, fun c => Text.isWord_of_mem_word⟩, fun c hc => ?_, hgt, hl⟩,
            rfl, by rw [length_openingText], r', ?_⟩
          · apply Text.head_afterWord (t := r)
            rw [hr, List.head?_append, hc]
            rfl
          · simp only [openingText_eq, List.cons_append, List.append_assoc, List.nil_append]
            rw [← hr, Text.word_append_afterWord]
      · simp at h
  · simp at h

/-- A marker opens a text exactly when its text does. -/
theorem opening?_eq_some_iff {s : Nat} {t : Text} {m : Opening} : opening? s t = some m ↔
    IsOpening m.name m.region ∧ m.start = s ∧
      m.length = (openingText m.name m.region).length ∧
        ∃ r, t = openingText m.name m.region ++ r := by
  refine ⟨exists_of_opening?, ?_⟩
  rintro ⟨h, hs, hl, r, rfl⟩
  rw [opening?_openingText h, ← hs, ← hl]

theorem closing?_closingText {w : Text} (h : IsName w) (s : Nat) (r : Text) :
    closing? s (closingText w ++ r) = some ⟨s, (closingText w).length, w⟩ := by
  have hx : ∀ c, ('>' :: r).head? = some c → isWord c = false := by
    intro c hc
    simp only [List.head?_cons, Option.some.injEq] at hc
    rw [← hc]
    decide
  have ht : closingText w ++ r = '/' :: '/' :: '<' :: '/' :: (w ++ '>' :: r) := by
    simp [closingText_eq]
  rw [ht, closing?, Text.word_append h.word hx, Text.afterWord_append h.word hx]
  simp [h.ne_nil, length_closingText]

theorem exists_of_closing? {s : Nat} {t : Text} {m : Closing} (h : closing? s t = some m) :
    IsName m.name ∧ m.start = s ∧ m.length = (closingText m.name).length ∧
      ∃ r, t = closingText m.name ++ r := by
  unfold closing? at h
  split at h
  · rename_i r
    by_cases hw : (Text.word r).isEmpty = true
    · simp [hw] at h
    · rw [if_neg hw] at h
      split at h
      · rename_i r' hr
        rw [Option.some.injEq] at h
        subst h
        refine ⟨⟨by simpa using hw, fun c => Text.isWord_of_mem_word⟩, rfl,
          by rw [length_closingText], r', ?_⟩
        simp only [closingText_eq, List.cons_append, List.append_assoc, List.nil_append]
        rw [← hr, Text.word_append_afterWord]
      · simp at h
  · simp at h

/-- A marker closes at the front of a text exactly when its text stands there. -/
theorem closing?_eq_some_iff {s : Nat} {t : Text} {m : Closing} : closing? s t = some m ↔
    IsName m.name ∧ m.start = s ∧ m.length = (closingText m.name).length ∧
      ∃ r, t = closingText m.name ++ r := by
  refine ⟨exists_of_closing?, ?_⟩
  rintro ⟨h, hs, hl, r, rfl⟩
  rw [closing?_closingText h, ← hs, ← hl]

end Marker

open Marker

/-! ### Texts in which no marker begins -/

/-- Does a marker begin at the front of a text? -/
def marksAt (t : Text) : Bool :=
  (opening? 0 t).isSome || (closing? 0 t).isSome

theorem marksAt_iff {t : Text} : marksAt t = true ↔
    (∃ w g r, IsOpening w g ∧ t = openingText w g ++ r) ∨
      ∃ w r, IsName w ∧ t = closingText w ++ r := by
  rw [marksAt, Bool.or_eq_true, Option.isSome_iff_exists, Option.isSome_iff_exists]
  constructor
  · rintro (⟨m, hm⟩ | ⟨m, hm⟩)
    · obtain ⟨h, -, -, r, hr⟩ := exists_of_opening? hm
      exact .inl ⟨_, _, r, h, hr⟩
    · obtain ⟨h, -, -, r, hr⟩ := exists_of_closing? hm
      exact .inr ⟨_, r, h, hr⟩
  · rintro (⟨w, g, r, h, rfl⟩ | ⟨w, r, h, rfl⟩)
    · exact .inl ⟨_, opening?_openingText h 0 r⟩
    · exact .inr ⟨_, closing?_closingText h 0 r⟩

theorem opening?_eq_none {t : Text} (h : marksAt t = false) (s : Nat) : opening? s t = none := by
  cases ho : opening? s t with
  | none => rfl
  | some m =>
    obtain ⟨hm, -, -, r, rfl⟩ := exists_of_opening? ho
    rw [marksAt_iff.mpr (.inl ⟨_, _, r, hm, rfl⟩)] at h
    cases h

theorem closing?_eq_none {t : Text} (h : marksAt t = false) (s : Nat) : closing? s t = none := by
  cases ho : closing? s t with
  | none => rfl
  | some m =>
    obtain ⟨hm, -, -, r, rfl⟩ := exists_of_closing? ho
    rw [marksAt_iff.mpr (.inr ⟨_, r, hm, rfl⟩)] at h
    cases h

/-- A marker begins with two slashes. -/
theorem slashes_of_marksAt {t : Text} (h : marksAt t = true) :
    ∃ r, t = '/' :: '/' :: '<' :: r := by
  rcases marksAt_iff.mp h with ⟨w, g, r, -, rfl⟩ | ⟨w, r, -, rfl⟩
  · exact ⟨_, by rw [openingText_eq]; rfl⟩
  · exact ⟨_, by rw [closingText_eq]; rfl⟩

theorem marksAt_cons {c : Char} (hc : c ≠ '/') (t : Text) : marksAt (c :: t) = false := by
  rw [Bool.eq_false_iff]
  intro h
  obtain ⟨r, hr⟩ := slashes_of_marksAt h
  simp only [List.cons.injEq] at hr
  exact hc hr.1

theorem marksAt_slash {t : Text} (ht : t.head? ≠ some '/') : marksAt ('/' :: t) = false := by
  rw [Bool.eq_false_iff]
  intro h
  obtain ⟨r, hr⟩ := slashes_of_marksAt h
  simp only [List.cons.injEq] at hr
  exact ht (by rw [hr.2]; rfl)

/-- No marker begins in the text when another follows. -/
def Silent (t next : Text) : Prop :=
  ∀ q, q <:+ t → q ≠ [] → marksAt (q ++ next) = false

theorem Silent.nil (next : Text) : Silent [] next := by
  intro q hq h0
  exact absurd (List.suffix_nil.mp hq) h0

theorem silent_cons {c : Char} {t next : Text} :
    Silent (c :: t) next ↔ marksAt (c :: (t ++ next)) = false ∧ Silent t next := by
  constructor
  · intro h
    exact ⟨h _ (List.suffix_refl _) (by simp), fun q hq => h q (hq.trans (List.suffix_cons _ _))⟩
  · rintro ⟨h1, h2⟩ q hq h0
    rcases List.suffix_cons_iff.mp hq with rfl | hq
    · exact h1
    · exact h2 q hq h0

theorem Silent.append {a b next : Text} (ha : Silent a (b ++ next)) (hb : Silent b next) :
    Silent (a ++ b) next := by
  induction a with
  | nil => exact hb
  | cons c a ih =>
    rw [silent_cons] at ha
    rw [List.cons_append, silent_cons]
    exact ⟨by rw [List.append_assoc]; exact ha.1, ih ha.2⟩

theorem silent_of_no_slash : ∀ {t : Text}, '/' ∉ t → ∀ next : Text, Silent t next
  | [], _, next => Silent.nil next
  | c :: t, h, next => by
    rw [silent_cons]
    refine ⟨marksAt_cons (fun e => h (e ▸ List.mem_cons_self ..)) _, ?_⟩
    exact silent_of_no_slash (fun hm => h (List.mem_cons_of_mem _ hm)) next

/-- Every text is silent up to its first marker. -/
theorem exists_silent : ∀ t : Text, ∃ a b, t = a ++ b ∧ Silent a b ∧ (b = [] ∨ marksAt b = true)
  | [] => ⟨[], [], rfl, Silent.nil [], .inl rfl⟩
  | c :: t => by
    by_cases hc : marksAt (c :: t) = true
    · exact ⟨[], c :: t, rfl, Silent.nil _, .inr hc⟩
    · obtain ⟨a, b, rfl, h1, h2⟩ := exists_silent t
      exact ⟨c :: a, b, rfl, silent_cons.mpr ⟨by simpa using hc, h1⟩, h2⟩

/-- What is found where a text begins with a front that an `x` ends is settled by the first `x`
of the text. -/
theorem Text.find_append {α : Type} {find : Text → Option α} {Fits : α → Prop} {front : α → Text}
    {x : Char} (hfind : ∀ t m, find t = some m ↔ Fits m ∧ ∃ r, t = front m ++ x :: r)
    (hfront : ∀ m, Fits m → x ∉ front m) {q : Text} (hq : x ∈ q) (next : Text) :
    find (q ++ next) = find q := by
  obtain ⟨a, b, rfl, ha⟩ := List.eq_append_cons_of_mem hq
  ext m
  rw [hfind, hfind]
  constructor
  · rintro ⟨hm, r, hr⟩
    rw [List.append_assoc, List.cons_append] at hr
    obtain ⟨rfl, -⟩ := split_first ha (hfront m hm) hr
    exact ⟨hm, b, rfl⟩
  · rintro ⟨hm, r, hr⟩
    exact ⟨hm, r ++ next, by rw [hr, List.append_assoc, List.cons_append]⟩

namespace Marker

/-- Which marker opens a text is settled by its first `>`. -/
theorem opening?_append {q : Text} (hq : '>' ∈ q) (s : Nat) (next : Text) :
    opening? s (q ++ next) = opening? s q := by
  have hfind : ∀ t m, opening? s t = some m ↔ (IsOpening m.name m.region ∧ m.start = s ∧
      m.length = (openingText m.name m.region).length) ∧
        ∃ r, t = ('/' :: '/' :: '<' :: (m.name ++ m.region)) ++ '>' :: r := by
    intro t m
    simp only [opening?_eq_some_iff, openingText_append, and_assoc]
  exact Text.find_append hfind (fun m h => h.1.front_not_mem) hq next

/-- Which marker closes at the front of a text is settled by its first `>`. -/
theorem closing?_append {q : Text} (hq : '>' ∈ q) (s : Nat) (next : Text) :
    closing? s (q ++ next) = closing? s q := by
  have hfind : ∀ t m, closing? s t = some m ↔ (IsName m.name ∧ m.start = s ∧
      m.length = (closingText m.name).length) ∧
        ∃ r, t = ('/' :: '/' :: '<' :: '/' :: m.name) ++ '>' :: r := by
    intro t m
    simp only [closing?_eq_some_iff, closingText_append, and_assoc]
  exact Text.find_append hfind (fun m h => h.1.front_not_mem) hq next

end Marker

theorem marksAt_append {q : Text} (hq : '>' ∈ q) (next : Text) :
    marksAt (q ++ next) = marksAt q := by
  rw [marksAt, marksAt, opening?_append hq, closing?_append hq]

/-! ### Plain texts

A name at the end of a text that is not yet closed makes a marker with whatever
`>` comes next, unless a slash stands before it. No marker and no line break is
such a continuation, so for the rest it does not matter which of them
follows. -/

/-- No marker begins in the text when a line break and a `>` follow. -/
def Plain (t : Text) : Prop := Silent t ['\n', '>']

theorem Plain.of_suffix {a t : Text} (h : a <:+ t) (ht : Plain t) : Plain a :=
  fun q hq => ht q (hq.trans h)

/-- The ranges of the blank characters behind the first 128. -/
def highBlanks : List (Nat × Nat) :=
  [(0x85, 0x85), (0xA0, 0xA0), (0x1680, 0x1680), (0x2000, 0x200A), (0x2028, 0x2029),
    (0x202F, 0x202F), (0x205F, 0x205F), (0x3000, 0x3000)]

theorem isBlank_cases {c : Char} (h : isBlank c = true) :
    c.toNat ∈ List.range' 0x09 24 ∨
      0x80 ≤ c.toNat ∧ ∃ b ∈ highBlanks, b.1 ≤ c.toNat ∧ c.toNat ≤ b.2 := by
  simp only [isBlank, Bool.or_eq_true, Bool.and_eq_true, decide_eq_true_eq, beq_iff_eq] at h
  simp only [List.mem_range'_1, highBlanks, List.mem_cons, List.not_mem_nil, or_false,
    exists_eq_or_imp, exists_eq_left]
  generalize c.toNat = n at h ⊢
  rcases h with (((((((((h | h) | h) | h) | h) | h) | h) | h) | h) | h) | h
  all_goals omega

/-- A blank character is not part of a word. -/
theorem isWord_of_isBlank {c : Char} (h : isBlank c = true) : isWord c = false := by
  have hlow : ∀ n ∈ List.range' 0x09 24, isWord (Char.ofNat n) = false := by decide +kernel
  have hapart : ∀ b ∈ highBlanks, ∀ w ∈ wordRanges, b.2 < w.1 ∨ w.2 < b.1 := by decide +kernel
  rcases isBlank_cases h with hn | ⟨hn, b, hb, h1, h2⟩
  · have := hlow c.toNat hn
    rwa [Char.ofNat_toNat] at this
  · rw [isWord, if_neg (by omega), inRanges, List.any_eq_false]
    intro w hw
    have := hapart b hb w hw
    simp only [Bool.and_eq_true, decide_eq_true_eq]
    omega

/-- What can follow a plain text without making a marker with its end. -/
def Breaks (next : Text) : Prop :=
  (∃ c, next.head? = some c ∧ isBlank c = true) ∨ ∃ r, next = '/' :: '/' :: r

theorem breaks_feed (r : Text) : Breaks ('\n' :: r) :=
  .inl ⟨'\n', rfl, by decide⟩

theorem breaks_of_marksAt {t : Text} (h : marksAt t = true) : Breaks t := by
  obtain ⟨r, hr⟩ := slashes_of_marksAt h
  exact .inr ⟨_, hr⟩

/-- A marker up to its `>` may end a region. -/
theorem exists_front_of_marksAt {t : Text} (h : marksAt t = true) :
    ∃ a r, t = '/' :: a ++ '>' :: r ∧ '>' ∉ a ∧ ('/' :: a).getLast? ≠ some '/' := by
  rcases marksAt_iff.mp h with ⟨w, g, r, hw, rfl⟩ | ⟨w, r, hw, rfl⟩
  · refine ⟨'/' :: '<' :: (w ++ g), r, openingText_append w g r, ?_, ?_⟩
    · exact fun hm => hw.front_not_mem (List.mem_cons_of_mem _ hm)
    · intro hl
      have hwg : w ++ g ≠ [] := by simp [hw.isName.ne_nil]
      have hl' : (w ++ g).getLast? = some '/' := by
        rwa [List.getLast?_cons_cons, List.getLast?_cons_cons,
          List.getLast?_cons_of_ne_nil hwg] at hl
      by_cases hg : g = []
      · rw [hg, List.append_nil] at hl'
        exact hw.isName.not_mem (c := '/') (by decide) (List.mem_of_getLast? hl')
      · rw [List.getLast?_append_of_ne_nil _ hg] at hl'
        exact hw.last hl'
  · refine ⟨'/' :: '<' :: '/' :: w, r, closingText_append w r, ?_, ?_⟩
    · exact fun hm => hw.front_not_mem (List.mem_cons_of_mem _ hm)
    · intro hl
      have hl' : w.getLast? = some '/' := by
        rwa [List.getLast?_cons_cons, List.getLast?_cons_cons, List.getLast?_cons_cons,
          List.getLast?_cons_of_ne_nil hw.ne_nil] at hl
      exact hw.not_mem (c := '/') (by decide) (List.mem_of_getLast? hl')

/-- A word that is never closed makes a marker with the next one. -/
theorem marksAt_open_end {w g next : Text} (hw : IsName w)
    (hg : ∀ c, g.head? = some c → isWord c = false) (hgt : '>' ∉ g) (h : marksAt next = true) :
    marksAt ('/' :: '/' :: '<' :: (w ++ g) ++ next) = true := by
  obtain ⟨a, r, rfl, ha, hl⟩ := exists_front_of_marksAt h
  refine marksAt_iff.mpr (.inl ⟨w, g ++ '/' :: a, r, ⟨hw, ?_, ?_, ?_⟩, by simp [openingText_eq]⟩)
  · intro c hc
    cases g with
    | nil =>
      simp only [List.nil_append, List.head?_cons, Option.some.injEq] at hc
      rw [← hc]
      decide
    | cons d g => exact hg c (by simpa using hc)
  · simp [hgt, ha]
  · rw [List.getLast?_append_of_ne_nil _ (by simp)]
    exact hl

/-- A marker that begins in a text without a `>` and is closed after the next line
break has a name there. -/
theorem open_end_of_marksAt {q : Text} (hgt : '>' ∉ q) (h : marksAt (q ++ ['\n', '>']) = true) :
    ∃ w g, IsName w ∧ (∀ c, g.head? = some c → isWord c = false) ∧ '>' ∉ g ∧
      q = '/' :: '/' :: '<' :: (w ++ g) := by
  have hbr : q ++ ['\n', '>'] = (q ++ ['\n']) ++ '>' :: [] := by simp
  have hmem : '\n' ∈ q ++ ['\n'] := by simp
  have hgt' : '>' ∉ q ++ ['\n'] := by simp [hgt]
  rcases marksAt_iff.mp h with ⟨w, g, r, hw, he⟩ | ⟨w, r, hw, he⟩
  · rw [hbr, openingText_append] at he
    obtain ⟨h1, -⟩ := Text.split_first hgt' hw.front_not_mem he
    rcases List.eq_nil_or_concat' g with rfl | ⟨g', d, rfl⟩
    · rw [h1] at hmem
      simp [hw.isName.not_mem (c := '\n') (by decide)] at hmem
    · have h2 : q ++ ['\n'] = ('/' :: '/' :: '<' :: (w ++ g')) ++ [d] := by simpa using h1
      exact ⟨w, g', hw.isName, fun c hc => hw.head c (by rw [List.head?_append, hc]; rfl),
        fun hm => hw.not_mem (List.mem_append_left _ hm), List.append_inj_left' h2 rfl⟩
  · rw [hbr, closingText_append] at he
    obtain ⟨h1, -⟩ := Text.split_first hgt' hw.front_not_mem he
    rw [h1] at hmem
    simp [hw.not_mem (c := '\n') (by decide)] at hmem

/-- A text that is silent before a marker is plain. -/
theorem Silent.plain {t next : Text} (h : Silent t next) (hn : marksAt next = true) : Plain t := by
  intro q hq h0
  have hs := h q hq h0
  rw [Bool.eq_false_iff]
  intro hm
  by_cases hgt : '>' ∈ q
  · rw [marksAt_append hgt] at hs hm
    rw [hs] at hm
    cases hm
  · obtain ⟨w, g, hw, hg, hgt', rfl⟩ := open_end_of_marksAt hgt hm
    rw [marksAt_open_end hw hg hgt' hn] at hs
    cases hs

theorem Breaks.head {next : Text} (h : Breaks next) {c : Char} (hc : next.head? = some c) :
    isWord c = false ∧ c ≠ '<' ∧ c ≠ '>' := by
  rcases h with ⟨d, hd, hb⟩ | ⟨r, rfl⟩
  · rw [hc, Option.some.injEq] at hd
    subst hd
    refine ⟨isWord_of_isBlank hb, ?_, ?_⟩
    · rintro rfl
      exact absurd hb (by decide)
    · rintro rfl
      exact absurd hb (by decide)
  · simp only [List.head?_cons, Option.some.injEq] at hc
    rw [← hc]
    decide

/-- A word at the front of a rest that is not closed makes a marker with a line
break and a `>`. -/
theorem marksAt_word_end {c : Char} {t : Text} (hc : isWord c = true) (hgt : '>' ∉ c :: t) :
    marksAt ('/' :: '/' :: '<' :: (c :: t) ++ ['\n', '>']) = true := by
  have hwa := Text.word_append_afterWord (c :: t)
  refine marksAt_iff.mpr (.inl ⟨Text.word (c :: t), Text.afterWord (c :: t) ++ ['\n'], [],
    ⟨⟨by simp [Text.word, hc], fun _ => Text.isWord_of_mem_word⟩, fun d hd => ?_, ?_, by simp⟩, ?_⟩)
  · cases hx : Text.afterWord (c :: t) with
    | nil =>
      rw [hx] at hd
      simp only [List.nil_append, List.head?_cons, Option.some.injEq] at hd
      rw [← hd]
      decide
    | cons e x =>
      rw [hx] at hd
      exact Text.head_afterWord (t := c :: t) (by rw [hx]; simpa using hd)
  · rw [List.mem_append, not_or]
    exact ⟨fun hm => hgt (hwa ▸ List.mem_append_right _ hm), by decide⟩
  · rw [openingText_append, ← List.append_assoc, hwa]
    simp

/-- A plain text is silent before every marker and every blank. -/
theorem Plain.silent {t next : Text} (h : Plain t) (hn : Breaks next) : Silent t next := by
  intro q hq h0
  have hp := h q hq h0
  rw [Bool.eq_false_iff]
  intro hm
  by_cases hgt : '>' ∈ q
  · rw [marksAt_append hgt] at hp hm
    rw [hp] at hm
    cases hm
  · obtain ⟨r, hr⟩ := slashes_of_marksAt hm
    match q, h0, hgt, hp, hm, hr with
    | [a], _, _, _, _, hr =>
      simp only [List.cons_append, List.nil_append, List.cons.injEq] at hr
      rcases hn with ⟨d, hd, hb⟩ | ⟨r', rfl⟩
      · rw [hr.2, List.head?_cons, Option.some.injEq] at hd
        exact absurd (hd ▸ hb) (by decide)
      · simp at hr
    | [a, b], _, _, _, _, hr =>
      simp only [List.cons_append, List.nil_append, List.cons.injEq] at hr
      exact (hn.head (c := '<') (by rw [hr.2.2]; rfl)).2.1 rfl
    | [a, b, c], _, _, _, hm, hr =>
      rcases marksAt_iff.mp hm with ⟨w, g, r', hw, he⟩ | ⟨w, r', hw, he⟩
      · obtain ⟨d, w', rfl⟩ := List.exists_cons_of_ne_nil hw.isName.ne_nil
        simp only [openingText_eq, List.cons_append, List.nil_append, List.cons.injEq] at he
        have := hn.head (c := d) (by rw [he.2.2.2]; rfl)
        simp [hw.isName.word d (List.mem_cons_self ..)] at this
      · obtain ⟨d, w', rfl⟩ := List.exists_cons_of_ne_nil hw.ne_nil
        simp only [closingText_eq, List.cons_append, List.nil_append, List.cons.injEq] at he
        rcases hn with ⟨e, hd, hb⟩ | ⟨r'', rfl⟩
        · rw [he.2.2.2, List.head?_cons, Option.some.injEq] at hd
          exact absurd (hd ▸ hb) (by decide)
        · simp only [List.cons.injEq] at he
          exact hw.not_mem (c := '/') (by decide) (he.2.2.2.2.1 ▸ List.mem_cons_self ..)
    | a :: b :: c :: d :: x, _, hgt, hp, hm, hr =>
      simp only [List.cons_append, List.cons.injEq] at hr
      obtain ⟨rfl, rfl, rfl, -⟩ := hr
      rcases marksAt_iff.mp hm with ⟨w, g, r', hw, he⟩ | ⟨w, r', hw, he⟩
      · obtain ⟨e, w', rfl⟩ := List.exists_cons_of_ne_nil hw.isName.ne_nil
        simp only [openingText_eq, List.cons_append, List.cons.injEq] at he
        have hd : isWord d = true := he.2.2.2.1 ▸ hw.isName.word e (List.mem_cons_self ..)
        rw [marksAt_word_end hd (fun hm' => hgt (by simp at hm' ⊢; tauto))] at hp
        cases hp
      · rw [closingText_append] at he
        simp only [List.cons_append, List.cons.injEq] at he
        -- the name of the closing marker goes on after `q`, where no word goes on
        rcases List.append_eq_append_iff.mp he.2.2.2.2 with ⟨y, hy1, hy2⟩ | ⟨y, hy1, hy2⟩
        · cases y with
          | nil => exact (hn.head (c := '>') (by rw [hy2]; rfl)).2.2 rfl
          | cons e y =>
            have := hn.head (c := e) (by rw [hy2]; rfl)
            simp [hw.word e (by rw [hy1]; simp)] at this
        · cases y with
          | nil => exact (hn.head (c := '>') (by rw [List.nil_append] at hy2; rw [← hy2]; rfl)).2.2 rfl
          | cons e y =>
            simp only [List.cons_append, List.cons.injEq] at hy2
            apply hgt
            rw [hy1, ← hy2.1]
            simp

/-! ### The search -/

namespace Marker

theorem scan_cons (s covered : Nat) (c : Char) (r : Text) : scan s covered (c :: r) =
    match closing? s (c :: r) with
    | some m => closing m :: scan (s + 1) (covered - 1) r
    | none =>
      match covered with
      | rest + 1 => scan (s + 1) rest r
      | 0 =>
        match opening? s (c :: r) with
        | some m => opening m :: scan (s + 1) (m.length - 1) r
        | none => scan (s + 1) 0 r :=
  scan.eq_def s covered (c :: r)

theorem scan_cons_silent {c : Char} {r : Text} (h : marksAt (c :: r) = false) (s : Nat) :
    scan s 0 (c :: r) = scan (s + 1) 0 r := by
  rw [scan, closing?_eq_none h, opening?_eq_none h]

/-- The search passes over a silent text. -/
theorem scan_silent {next : Text} : ∀ {t : Text}, Silent t next → ∀ s : Nat,
    scan s 0 (t ++ next) = scan (s + t.length) 0 next
  | [], _, _ => rfl
  | c :: t, h, s => by
    rw [silent_cons] at h
    rw [List.cons_append, scan_cons_silent h.1, scan_silent h.2, List.length_cons]
    congr 1
    omega

/-- The search finds markers in the front of a text, then those in the rest. -/
theorem scan_append (next : Text) : ∀ (t : Text) (s covered : Nat),
    ∃ l covered', scan s covered (t ++ next) = l ++ scan (s + t.length) covered' next
  | [], s, covered => ⟨[], covered, rfl⟩
  | c :: t, s, covered => by
    have hlen : s + (c :: t).length = s + 1 + t.length := by rw [List.length_cons]; omega
    rw [hlen, List.cons_append, scan_cons]
    split
    · rename_i m _
      obtain ⟨l, d, h⟩ := scan_append next t (s + 1) (covered - 1)
      exact ⟨closing m :: l, d, by rw [h]; rfl⟩
    · split
      · rename_i rest
        exact scan_append next t (s + 1) rest
      · split
        · rename_i m _
          obtain ⟨l, d, h⟩ := scan_append next t (s + 1) (m.length - 1)
          exact ⟨opening m :: l, d, by rw [h]; rfl⟩
        · exact scan_append next t (s + 1) 0

/-- A text is silent, or the search finds a marker in it. -/
theorem silent_or_scan (next : Text) : ∀ (t : Text) (s : Nat), Silent t next ∨
    ∃ m l covered, scan s 0 (t ++ next) = m :: (l ++ scan (s + t.length) covered next)
  | [], _ => .inl (Silent.nil next)
  | c :: t, s => by
    have hlen : s + (c :: t).length = s + 1 + t.length := by rw [List.length_cons]; omega
    by_cases hm : marksAt (c :: (t ++ next)) = true
    · right
      rw [hlen, List.cons_append, scan_cons]
      split
      · rename_i m _
        obtain ⟨l, d, h⟩ := scan_append next t (s + 1) (0 - 1)
        exact ⟨closing m, l, d, by rw [h]⟩
      · rename_i hc
        dsimp only
        split
        · rename_i m _
          obtain ⟨l, d, h⟩ := scan_append next t (s + 1) (m.length - 1)
          exact ⟨opening m, l, d, by rw [h]⟩
        · rename_i ho
          exfalso
          rcases marksAt_iff.mp hm with ⟨w, g, r, hw, he⟩ | ⟨w, r, hw, he⟩
          · rw [he, opening?_openingText hw] at ho
            cases ho
          · rw [he, closing?_closingText hw] at hc
            cases hc
    · rcases silent_or_scan next t (s + 1) with h | ⟨m, l, d, h⟩
      · exact .inl (silent_cons.mpr ⟨by simpa using hm, h⟩)
      · right
        refine ⟨m, l, d, ?_⟩
        rw [hlen, List.cons_append, scan_cons_silent (by simpa using hm), h]

theorem silent_closing_tail {w : Text} (h : IsName w) (next : Text) :
    Silent ('/' :: '<' :: '/' :: (w ++ ['>'])) next := by
  obtain ⟨d, w', rfl⟩ := List.exists_cons_of_ne_nil h.ne_nil
  have hd : d ≠ '/' := by
    rintro rfl
    exact h.not_mem (c := '/') (by decide) (List.mem_cons_self ..)
  have hs : '/' ∉ d :: w' ++ ['>'] := by
    rw [List.mem_append, not_or]
    exact ⟨h.not_mem (by decide), by decide⟩
  rw [silent_cons, silent_cons, silent_cons]
  refine ⟨marksAt_slash (by simp), marksAt_cons (by decide) _, marksAt_slash (by simpa using hd), ?_⟩
  exact silent_of_no_slash hs next

/-- A closing marker at the front is found, and the search goes on behind it. -/
theorem scan_closing {w : Text} (h : IsName w) (s : Nat) (next : Text) :
    scan s 0 (closingText w ++ next) =
      closing ⟨s, (closingText w).length, w⟩ :: scan (s + (closingText w).length) 0 next := by
  have hc := closing?_closingText h s next
  have ht : closingText w ++ next = '/' :: (('/' :: '<' :: '/' :: (w ++ ['>'])) ++ next) := by
    rw [closingText_eq]
    rfl
  rw [ht] at hc ⊢
  rw [scan, hc]
  simp only
  rw [scan_silent (silent_closing_tail h next)]
  congr 2
  rw [closingText_eq]
  simp only [List.length_cons, List.length_append]
  omega

/-- Between an opening marker and its `>` only a closing marker is found. -/
theorem scan_cover (next : Text) : ∀ {a : Text}, '>' ∉ a →
    (∀ w, IsName w → ¬ ('/' :: '/' :: '<' :: '/' :: w) <:+ a) → ∀ s : Nat,
    scan s (a.length + 1) (a ++ '>' :: next) = scan (s + a.length + 1) 0 next
  | [], _, _, s => by
    have hm : marksAt ('>' :: next) = false := marksAt_cons (by decide) next
    rw [List.nil_append, scan, closing?_eq_none hm]
    rfl
  | c :: a, hgt, hn, s => by
    have hc : closing? s (c :: (a ++ '>' :: next)) = none := by
      cases hm : closing? s (c :: (a ++ '>' :: next)) with
      | none => rfl
      | some m =>
        obtain ⟨hw, -, -, r, hr⟩ := exists_of_closing? hm
        rw [closingText_append, ← List.cons_append] at hr
        obtain ⟨h1, -⟩ := Text.split_first hgt hw.front_not_mem hr
        exact absurd (h1 ▸ List.suffix_refl _) (hn m.name hw)
    rw [List.cons_append, scan, hc]
    simp only [List.length_cons]
    rw [scan_cover next (fun hm => hgt (List.mem_cons_of_mem _ hm))
      (fun w hw hs => hn w hw (hs.trans (List.suffix_cons _ _)))]
    congr 1
    omega

/-- A closing marker at the end of a covered text is found. -/
theorem scan_cover_closing {w : Text} (hw : IsName w) (next : Text) : ∀ {a : Text}, '>' ∉ a →
    ∀ s : Nat,
    scan s ((a ++ '/' :: '/' :: '<' :: '/' :: w).length + 1) (a ++ (closingText w ++ next)) =
      closing ⟨s + a.length, (closingText w).length, w⟩ ::
        scan (s + a.length + (closingText w).length) 0 next
  | [], _, s => by
    have hc := closing?_closingText hw s next
    have ht : closingText w ++ next = '/' :: (('/' :: '<' :: '/' :: w) ++ '>' :: next) := by
      rw [closingText_append]
      rfl
    have hn : ∀ v, IsName v → ¬ ('/' :: '/' :: '<' :: '/' :: v) <:+ '/' :: '<' :: '/' :: w := by
      rintro v hv ⟨p, hp⟩
      have hp' : (p ++ ['/', '/', '<']) ++ '/' :: v = ['/', '<'] ++ '/' :: w := by simpa using hp
      obtain ⟨h1, -⟩ := Text.split_last (hv.not_mem (c := '/') (by decide))
        (hw.not_mem (c := '/') (by decide)) hp'
      have := congrArg List.length h1
      simp at this
    rw [ht] at hc
    rw [List.nil_append, List.nil_append, ht, scan_cons, hc]
    simp only [List.length_cons, List.length_nil, Nat.add_zero]
    have hgt : '>' ∉ '/' :: '<' :: '/' :: w := fun hm => hw.front_not_mem (List.mem_cons_of_mem _ hm)
    have := scan_cover next hgt hn (s + 1)
    simp only [List.length_cons] at this
    rw [show w.length + 1 + 1 + 1 + 1 + 1 - 1 = w.length + 1 + 1 + 1 + 1 by omega, this]
    congr 2
    rw [length_closingText]
    omega
  | c :: a, hgt, s => by
    have hc : closing? s (c :: (a ++ (closingText w ++ next))) = none := by
      cases hm : closing? s (c :: (a ++ (closingText w ++ next))) with
      | none => rfl
      | some m =>
        obtain ⟨hv, -, -, r, hr⟩ := exists_of_closing? hm
        have hr' : (c :: a ++ '/' :: '/' :: '<' :: '/' :: w) ++ '>' :: next =
            ('/' :: '/' :: '<' :: '/' :: m.name) ++ '>' :: r := by
          rw [closingText_append, closingText_append] at hr
          simpa using hr
        obtain ⟨h1, -⟩ := Text.split_first (by
          rw [List.mem_append, not_or]
          exact ⟨hgt, hw.front_not_mem⟩) hv.front_not_mem hr'
        have h2 : (c :: a ++ ['/', '/', '<']) ++ '/' :: w = ['/', '/', '<'] ++ '/' :: m.name := by
          simpa using h1
        obtain ⟨h3, -⟩ := Text.split_last (hw.not_mem (c := '/') (by decide))
          (hv.not_mem (c := '/') (by decide)) h2
        have := congrArg List.length h3
        simp at this
    rw [List.cons_append, List.cons_append, scan, hc]
    simp only [List.length_cons]
    have := scan_cover_closing hw next (fun hm => hgt (List.mem_cons_of_mem _ hm)) (a := a) (s + 1)
    rw [this, show s + 1 + a.length = s + (a.length + 1) by omega]

theorem closing?_openingText {w g : Text} (h : IsOpening w g) (s : Nat) (r : Text) :
    closing? s (openingText w g ++ r) = none := by
  cases hm : closing? s (openingText w g ++ r) with
  | none => rfl
  | some m =>
    obtain ⟨hv, -, -, r', hr⟩ := exists_of_closing? hm
    obtain ⟨d, w', rfl⟩ := List.exists_cons_of_ne_nil h.isName.ne_nil
    simp only [openingText_eq, closingText_eq, List.cons_append, List.cons.injEq] at hr
    exact absurd (hr.2.2.2.1 ▸ List.mem_cons_self ..) (h.isName.not_mem (c := '/') (by decide))

/-- An opening marker is found, and all up to its `>` is covered. -/
theorem scan_opening_covered {w g : Text} (h : IsOpening w g) (s : Nat) (next : Text) :
    scan s 0 (openingText w g ++ next) = opening ⟨s, (openingText w g).length, w, g⟩ ::
      scan (s + 1) (('/' :: '<' :: (w ++ g)).length + 1) ('/' :: '<' :: (w ++ g) ++ '>' :: next) := by
  have ho := opening?_openingText h s next
  have hc := closing?_openingText h s next
  rw [openingText_append] at ho hc ⊢
  rw [List.cons_append] at ho hc ⊢
  rw [scan_cons, hc]
  simp only
  rw [ho]
  simp only [length_openingText, List.length_cons, List.length_append]
  congr 2
  omega

theorem not_suffix_of_not_swallows {w g : Text} (h : IsOpening w g) (hs : ¬ Swallows g) :
    ∀ v, IsName v → ¬ ('/' :: '/' :: '<' :: '/' :: v) <:+ '/' :: '<' :: (w ++ g) := by
  rintro v hv ⟨p, hp⟩
  have hp' : p ++ '/' :: '/' :: '<' :: '/' :: v = ('/' :: '<' :: w) ++ g := by simpa using hp
  rcases List.append_eq_append_iff.mp hp' with ⟨x, hx1, hx2⟩ | ⟨x, hx1, hx2⟩
  · -- the closing marker would begin in the name
    match p, hx1 with
    | [], hx1 =>
      rw [List.nil_append] at hx1
      rw [← hx1] at hx2
      simp at hx2
    | [a], hx1 =>
      simp only [List.cons_append, List.nil_append, List.cons.injEq] at hx1
      rw [← hx1.2] at hx2
      simp at hx2
    | a :: b :: p, hx1 =>
      simp only [List.cons_append, List.cons.injEq] at hx1
      cases x with
      | nil => exact hs ⟨[], v, hv, by simpa using hx2.symm⟩
      | cons d x =>
        simp only [List.cons_append, List.cons.injEq] at hx2
        apply h.isName.not_mem (c := '/') (by decide)
        rw [hx1.2.2, ← hx2.1]
        simp
  · exact hs ⟨x, v, hv, by simpa using hx2⟩

/-- Behind an opening marker that swallows none, the search goes on as if the
text began there. -/
theorem scan_opening {w g : Text} (h : IsOpening w g) (hs : ¬ Swallows g) (s : Nat) (next : Text) :
    scan s 0 (openingText w g ++ next) =
      opening ⟨s, (openingText w g).length, w, g⟩ ::
        scan (s + (openingText w g).length) 0 next := by
  rw [scan_opening_covered h, scan_cover next
    (fun hm => h.front_not_mem (List.mem_cons_of_mem _ hm)) (not_suffix_of_not_swallows h hs)]
  congr 2
  simp only [length_openingText, List.length_cons, List.length_append]
  omega

/-- A closing marker that ends an opening one is found after it. -/
theorem scan_opening_swallow {w b v : Text}
    (h : IsOpening w (b ++ ['/', '/', '<', '/'] ++ v)) (hv : IsName v) (s : Nat) (next : Text) :
    scan s 0 (openingText w (b ++ ['/', '/', '<', '/'] ++ v) ++ next) =
      opening ⟨s, (openingText w (b ++ ['/', '/', '<', '/'] ++ v)).length, w,
          b ++ ['/', '/', '<', '/'] ++ v⟩ ::
        closing ⟨s + (3 + w.length + b.length), (closingText v).length, v⟩ ::
          scan (s + (openingText w (b ++ ['/', '/', '<', '/'] ++ v)).length) 0 next := by
  have hgt : '>' ∉ '/' :: '<' :: (w ++ b) := by
    intro hm
    apply h.front_not_mem
    simp only [List.mem_cons, List.mem_append] at hm ⊢
    tauto
  have ht : '/' :: '<' :: (w ++ (b ++ ['/', '/', '<', '/'] ++ v)) ++ '>' :: next =
      '/' :: '<' :: (w ++ b) ++ (closingText v ++ next) := by
    rw [closingText_append]
    simp
  have hl : ('/' :: '<' :: (w ++ (b ++ ['/', '/', '<', '/'] ++ v))).length =
      ('/' :: '<' :: (w ++ b) ++ '/' :: '/' :: '<' :: '/' :: v).length := by simp
  rw [scan_opening_covered h, ht, hl, scan_cover_closing hv next hgt]
  have h1 : s + 1 + ('/' :: '<' :: (w ++ b)).length = s + (3 + w.length + b.length) := by
    simp only [List.length_cons, List.length_append]
    omega
  have h2 : s + (3 + w.length + b.length) + (closingText v).length =
      s + (openingText w (b ++ ['/', '/', '<', '/'] ++ v)).length := by
    simp only [length_openingText, length_closingText, List.length_cons, List.length_append,
      List.length_nil]
    omega
  rw [h1, h2]

/-- A closing marker at the end of a text is found whatever covers it. -/
theorem scan_closing_covered {w : Text} (h : IsName w) (s covered : Nat) (next : Text) :
    ∃ l, scan s covered (closingText w ++ next) = closing ⟨s, (closingText w).length, w⟩ :: l := by
  have hc := closing?_closingText h s next
  rw [closingText_append, List.cons_append] at hc ⊢
  exact ⟨_, by rw [scan_cons, hc]⟩

theorem closing?_start (s s' : Nat) (t : Text) :
    closing? s t = (closing? s' t).map fun m => { m with start := s } := by
  cases hm : closing? s' t with
  | none =>
    cases hm' : closing? s t with
    | none => rfl
    | some m =>
      obtain ⟨hw, -, -, r, rfl⟩ := exists_of_closing? hm'
      rw [closing?_closingText hw] at hm
      cases hm
  | some m =>
    obtain ⟨hw, -, hl, r, rfl⟩ := exists_of_closing? hm
    rw [closing?_closingText hw, ← hl]
    rfl

theorem opening?_start (s s' : Nat) (t : Text) :
    opening? s t = (opening? s' t).map fun m => { m with start := s } := by
  cases hm : opening? s' t with
  | none =>
    cases hm' : opening? s t with
    | none => rfl
    | some m =>
      obtain ⟨hw, -, -, r, rfl⟩ := exists_of_opening? hm'
      rw [opening?_openingText hw] at hm
      cases hm
  | some m =>
    obtain ⟨hw, -, hl, r, rfl⟩ := exists_of_opening? hm
    rw [opening?_openingText hw, ← hl]
    rfl

/-- How many markers a text has does not depend on where it begins. -/
theorem length_scan (s s' : Nat) : ∀ (t : Text) (covered : Nat),
    (scan s covered t).length = (scan s' covered t).length
  | [], _ => rfl
  | c :: t, covered => by
    have ih := length_scan (s + 1) (s' + 1) t
    rw [scan_cons, scan_cons, closing?_start s s', opening?_start s s']
    cases closing? s' (c :: t) with
    | some m => simpa using ih (covered - 1)
    | none =>
      cases covered with
      | succ rest => exact ih rest
      | zero =>
        cases opening? s' (c :: t) with
        | some m => simpa using ih (m.length - 1)
        | none => exact ih 0

end Marker
end Handout
