/-
# Settings documents are read back

A document of settings is three keys in the first column, the first with a list below it or
behind it, the others with a scalar behind them. The reader finds the end of a scalar at the
end of its line, in whatever style it was written (`readsScalar_scalar`), and the next
line begins with a key or a dash, so neither a gap nor a mark stands there (`LineStart`).

The value of a key takes the reader from behind the colon to the next line start
(`ReadsValue`); a map is read key by key (`readMap_key`). No field of the settings is lost:
the document denotes the value that was written (`read?_document`). It is visible ASCII, so
there is no carriage return in it. That is all that is asked of a library
(`Yaml.simple_faithful`).

Key definitions: `IsKey`, `ReadsValue`.
Key theorems: `readsScalar_scalar`, `readList_items`, `readMap_key`, `read?_document`,
`Yaml.simple_faithful`.
-/
import Handout.Proofs.Escaping
import Handout.Proofs.Storing
import Handout.Yaml.Simple

namespace Handout

/-! ### Line starts -/

/-- A line that begins with a lower-case letter, as those of the keys do. -/
def KeyStart (t : Text) : Prop := ∃ c r, t = c :: r ∧ 'a' ≤ c ∧ c ≤ 'z'

theorem KeyStart.ne_nil {t : Text} (h : KeyStart t) : t ≠ [] := by
  obtain ⟨c, r, rfl, -⟩ := h
  exact List.cons_ne_nil c r

theorem KeyStart.lineStart {x : Text} (h : KeyStart x) : LineStart x := .inr (.inl h)

/-- A lower-case letter is none of the characters that mean something else. -/
theorem ne_of_lower {c d : Char} (ha : 'a' ≤ c) (hz : c ≤ 'z') (hd : ¬ ('a' ≤ d ∧ d ≤ 'z')) :
    c ≠ d := by
  rintro rfl
  exact hd ⟨ha, hz⟩

namespace LineStart

variable {x : Text} (h : LineStart x) (line column : Nat)
include h

/-- A line start begins with none of the given characters. -/
theorem head?_ne {d : Char} (hd : ¬ ('a' ≤ d ∧ d ≤ 'z')) (hdash : d ≠ '-') : x.head? ≠ some d := by
  rcases h with rfl | ⟨c, r, rfl, ha, hz⟩ | ⟨r, rfl⟩
  · simp
  · simpa using ne_of_lower ha hz hd
  · simpa using hdash.symm

theorem gap_eq : Cursor.gap ⟨x, line, column⟩ = ⟨x, line, column⟩ := by
  cases x with
  | nil => rfl
  | cons c r =>
    have hsolid := h.solid c rfl
    have hmark : c ≠ '#' := by simpa using h.head?_ne (d := '#') (by decide) (by decide)
    simp only [isSeparator, Bool.or_eq_false_iff, beq_eq_false_iff_ne] at hsolid
    simp [Cursor.gap, Cursor.gapFrom, hsolid, hmark]

/-- The end of a line is passed. -/
theorem gap_feed : Cursor.gap ⟨'\n' :: x, line, column⟩ = ⟨x, line + 1, 0⟩ := by
  have hnext := h.gap_eq (line + 1) 0
  rw [Cursor.gap] at hnext ⊢
  rw [← hnext, Cursor.gapFrom, if_pos (by decide)]

theorem isMarker_eq : (⟨x, line, column⟩ : Cursor).isMarker = false := by
  have hdot : x.head? ≠ some '.' := h.head?_ne (by decide) (by decide)
  rcases h with rfl | ⟨c, r, rfl, ha, hz⟩ | ⟨r, rfl⟩
  · simp [Cursor.isMarker, Cursor.isOpening, Cursor.isClosing, Cursor.isMark]
  · have hdash : c ≠ '-' := ne_of_lower ha hz (by decide)
    have hdot : c ≠ '.' := by simpa using hdot
    simp [Cursor.isMarker, Cursor.isOpening, Cursor.isClosing, Cursor.isMark, hdash.symm, hdot.symm]
  · simp [Cursor.isMarker, Cursor.isOpening, Cursor.isClosing, Cursor.isMark]

theorem isColon_eq : (⟨x, line, column⟩ : Cursor).isColon false = false := by
  have hcolon : x.head? ≠ some ':' := h.head?_ne (by decide) (by decide)
  cases x with
  | nil => rfl
  | cons c r =>
    have hc : c ≠ ':' := by simpa using hcolon
    simp [Cursor.isColon, Cursor.isMark, hc.symm]

theorem atEnd_eq : (⟨x, line, column⟩ : Cursor).atEnd = x.isEmpty := by
  rw [Cursor.atEnd, h.isMarker_eq, Bool.or_false]

end LineStart

theorem KeyStart.isDash_eq {x : Text} (h : KeyStart x) (line column : Nat) :
    (⟨x, line, column⟩ : Cursor).isDash = false := by
  obtain ⟨c, r, rfl, ha, hz⟩ := h
  have hc : c ≠ '-' := ne_of_lower ha hz (by decide)
  simp [Cursor.isDash, Cursor.isMark, hc.symm]

/-! ### Scalars -/

/-- A date is no text. -/
theorem Plain.date?_ne_text (t u : Text) : date? t ≠ some (.text u) := by
  unfold date?
  split
  · split_ifs <;> simp
  · simp

/-- If a plain scalar denotes a text, it denotes itself. -/
theorem Plain.eq_of_resolve {t u : Text} (h : resolve t = some (.text u)) : u = t := by
  unfold resolve at h
  split_ifs at h
  all_goals
    cases hi : int? t with
    | some n => simp [hi] at h
    | none =>
      cases hf : float? t with
      | some x => simp [hi, hf] at h
      | none => simp_all [date?_ne_text]

theorem Plain.resolve_of_isText {t : Text} (h : isText t = true) : resolve t = some (.text t) := by
  unfold isText at h
  split at h
  · rename_i u hu
    rw [hu, eq_of_resolve hu]
  · cases h

/-- The characters that a plain scalar does not begin with. -/
theorem head_of_layout {c : Char} {r : Text} (h : looksLikeLayout (c :: r) = false) :
    isDivider c = false ∧ "#&*!|>'\"%@`".toList.contains c = false ∧
      ((c = '?' ∨ c = ':' ∨ c = '-') → beginsBlank r = false) ∧ breaksPlain c r = false := by
  simp only [looksLikeLayout, Bool.or_eq_false_iff, Bool.and_eq_false_iff, beq_eq_false_iff_ne] at h
  obtain ⟨⟨⟨⟨-, hdivider⟩, hmarks⟩, hblank⟩, hbreaks⟩ := h
  refine ⟨hdivider, hmarks, fun hc => hblank.resolve_left ?_, hbreaks⟩
  rintro ⟨⟨hq, hcolon⟩, hdash⟩
  rcases hc with hc | hc | hc
  · exact hq hc
  · exact hcolon hc
  · exact hdash hc

theorem breaksPlain_of_layout {t : Text} (h : looksLikeLayout t = false) :
    breaksPlain 'a' t = false := by
  cases t with
  | nil => rfl
  | cons c r =>
    obtain ⟨-, hmarks, hblank, hbreaks⟩ := head_of_layout h
    have hmark : c ≠ '#' := by
      rintro rfl
      exact absurd hmarks (by decide)
    rw [breaksPlain, hbreaks, Bool.or_false, Bool.or_eq_false_iff]
    constructor
    · by_cases hcolon : c = ':'
      · rw [hblank (.inr (.inl hcolon)), Bool.and_false]
      · simp [hcolon]
    · simp [hmark]

theorem beginsBlank_foldedFrom_eq_false {r : Text} (h : beginsBlank r = false) (column : Nat)
    (before : Option Char) (x : Text) :
    beginsBlank (foldedFrom false column before r ++ x) = false := by
  cases r with
  | nil => cases h
  | cons d r =>
    have hd : isSeparator d = false := h
    rw [foldedFrom_solid hd (by simp)]
    exact hd

/-- What is written for words that do not look like layout can begin a plain scalar. -/
theorem beginsPlain_foldedFrom {c : Char} {r : Text} (hc : isSeparator c = false)
    (hl : looksLikeLayout (c :: r) = false) (column : Nat) (before : Option Char) (x : Text) :
    beginsPlain false (foldedFrom false column before (c :: r) ++ x) = true := by
  obtain ⟨hdivider, hmarks, hblank, -⟩ := head_of_layout hl
  rw [foldedFrom_solid hc (by simp), List.cons_append, beginsPlain]
  have hnext := fun h => beginsBlank_foldedFrom_eq_false (hblank h) (column + 1) (some c) x
  split_ifs with hdash hmark
  · rw [hnext (.inr (.inr hdash))]
    rfl
  · rw [hnext (by simp only [Bool.or_eq_true, decide_eq_true_eq] at hmark; tauto)]
    rfl
  · rw [hc, hdivider, hmarks]
    rfl

/-- A plain scalar is read as what its text denotes. -/
theorem readInline_of_beginsPlain {least : Nat} {c : Cursor} (hm : c.isMarker = false)
    (hb : beginsPlain false c.rest = true) (fuel : Nat) :
    readInline false least (fuel + 1) c = (Plain.resolve (c.plain false least).1).map
      fun v => (v, (c.plain false least).2.gap) := by
  have hnot : ∀ d ∈ ['[', '\x7b', '\'', '"'], ∀ r, c.rest ≠ d :: r := by
    intro d hd r he
    rw [he] at hb
    simp only [List.mem_cons, List.not_mem_nil, or_false] at hd
    rcases hd with rfl | rfl | rfl | rfl
    · exact absurd hb (by simp [beginsPlain, isDivider])
    · exact absurd hb (by simp [beginsPlain, isDivider])
    · exact absurd hb (by simp [beginsPlain])
    · exact absurd hb (by simp [beginsPlain])
  simp only [List.forall_mem_cons] at hnot
  obtain ⟨hlist, hmap, hsingle, hdouble, -⟩ := hnot
  rw [readInline, hm]
  simp only [Bool.false_eq_true, ↓reduceIte]
  rw [if_pos hb]

/-- Why a text has its style. -/
theorem Text.style_cases (t : Text) : t.style = .double ∨
    (t.style = .single ∧ Ordinary t ∧ hasSpaceAtBreak t = false) ∨
      (t.style = .plain ∧ Ordinary t ∧ Plain.isText t = true ∧ '\n' ∉ t ∧ t.head? ≠ some ' ' ∧
        t.getLast? ≠ some ' ' ∧ looksLikeLayout t = false) := by
  unfold Text.style
  by_cases hdouble : (!t.all isOrdinary || hasSpaceAtBreak t) = true
  · exact .inl (if_pos hdouble)
  · right
    rw [if_neg hdouble]
    rw [Bool.not_eq_true, Bool.or_eq_false_iff, Bool.not_eq_false', List.all_eq_true] at hdouble
    obtain ⟨hordinary, hbreak⟩ := hdouble
    split_ifs with hsingle
    · exact .inl ⟨rfl, hordinary, hbreak⟩
    · rw [Bool.not_eq_true] at hsingle
      simp only [Bool.or_eq_false_iff, Bool.not_eq_false', hasSpaceAtEnd, beq_eq_false_iff_ne]
        at hsingle
      obtain ⟨⟨⟨htext, hfeed⟩, hfirst, hlast⟩, hlayout⟩ := hsingle
      exact .inr ⟨rfl, hordinary, htext, by simpa using hfeed, hfirst, hlast, hlayout⟩

/-- What a value on a line begins with: neither a gap nor a dash. -/
def ValueStart (t : Text) : Prop :=
  t ≠ [] ∧ (∀ line column, (⟨t, line, column⟩ : Cursor).gap = ⟨t, line, column⟩) ∧
    ∀ line column, (⟨t, line, column⟩ : Cursor).isDash = false

theorem valueStart_cons {c : Char} {r : Text} (hs : isSeparator c = false) (hm : c ≠ '#')
    (hd : c = '-' → beginsBlank r = false) : ValueStart (c :: r) := by
  simp only [isSeparator, Bool.or_eq_false_iff, beq_eq_false_iff_ne] at hs
  refine ⟨by simp, fun line column => ?_, fun line column => ?_⟩
  · simp [Cursor.gap, Cursor.gapFrom, hs, hm]
  · by_cases hc : c = '-'
    · simp [Cursor.isDash, Cursor.isMark, hc, hd hc]
    · simp [Cursor.isDash, Cursor.isMark, Ne.symm hc]

/-- A text on the rest of a line denotes a value. -/
structure ReadsScalar (written : Text) (v : Value) : Prop where
  start : ∀ x, ValueStart (written ++ '\n' :: x)
  read : ∀ {x : Text}, LineStart x → ∀ (fuel line : Nat) {place : Nat}, place ≠ 0 → ∃ line',
      readInline false 1 (fuel + 1) ⟨written ++ '\n' :: x, line, place⟩ =
        some (v, ⟨x, line', 0⟩)

/-- A plain scalar denotes what its text does. -/
theorem readsScalar_plain {t : Text} (hw : Words t) (hl : looksLikeLayout t = false) {v : Value}
    (hr : Plain.resolve t = some v) (column : Nat) :
    ReadsScalar (foldedFrom false column none t) v := by
  obtain ⟨c, w, u, rfl, hsolid, -⟩ := hw.exists_word
  have hc := hsolid c (List.mem_cons_self ..)
  obtain ⟨-, hmarks, hblank, -⟩ := head_of_layout hl
  constructor
  · intro x
    rw [List.cons_append, foldedFrom_solid hc (by simp)]
    refine valueStart_cons hc ?_ fun hd => ?_
    · rintro rfl
      exact absurd hmarks (by decide)
    · exact beginsBlank_foldedFrom_eq_false (hblank (.inr (.inr hd))) _ _ _
  · intro x hx fuel line place hplace
    have hfuel : (c :: w ++ u).length ≤
        (foldedFrom false column none (c :: w ++ u) ++ '\n' :: x).length := by
      have hlost := length_le_foldedFrom false (c :: w ++ u) column none
      simp only [List.length_append] at hlost ⊢
      omega
    obtain ⟨line', hplain⟩ := Cursor.plainFrom_folded hx hw (breaksPlain_of_layout hl) _ hfuel
      column none line place
    have hbegins := beginsPlain_foldedFrom hc hl column none ('\n' :: x)
    refine ⟨line', ?_⟩
    rw [readInline_of_beginsPlain (Cursor.isMarker_of_column hplace) hbegins, Cursor.plain]
    simp only [hplain, hx.gap_eq, hr, Option.map_some]

theorem readsScalar_single {t : Text} (h : Folds t) (column : Nat) :
    ReadsScalar (['\''] ++ foldedFrom true column none t ++ ['\'']) (.text t) := by
  constructor
  · exact fun x => valueStart_cons (by decide) (by decide) fun hd => absurd hd (by decide)
  · intro x hx fuel line place hplace
    obtain ⟨line', place', hquoted⟩ := Cursor.singleQuoted_folded ('\n' :: x) (by simp) h
      column line place
    refine ⟨line' + 1, ?_⟩
    simp only [List.append_assoc, List.cons_append, List.nil_append]
    rw [readInline, Cursor.isMarker_of_column hplace]
    simp only [hquoted, Bool.false_eq_true, ↓reduceIte, Option.map_some, hx.gap_feed]

theorem readsScalar_double (t : Text) (column : Nat) :
    ReadsScalar (['"'] ++ doubleFrom true false column t ++ ['"']) (.text t) := by
  constructor
  · exact fun x => valueStart_cons (by decide) (by decide) fun hd => absurd hd (by decide)
  · intro x hx fuel line place hplace
    obtain ⟨line', place', hquoted⟩ := Cursor.doubleQuoted_written ('\n' :: x) t column line place
    refine ⟨line' + 1, ?_⟩
    simp only [List.append_assoc, List.cons_append, List.nil_append]
    rw [readInline, Cursor.isMarker_of_column hplace]
    simp only [hquoted, Bool.false_eq_true, ↓reduceIte, Option.map_some, hx.gap_feed]

/-- **A scalar denotes the text that was written**, in whatever style. -/
theorem readsScalar_scalar (column : Nat) (t : Text) :
    ReadsScalar (Text.scalar column t) (.text t) := by
  unfold Text.scalar
  rcases t.style_cases with h | ⟨h, hordinary, hbreak⟩ |
    ⟨h, hordinary, htext, hfeed, hfirst, hlast, hlayout⟩
  · rw [h]
    exact readsScalar_double t (column + 1)
  · rw [h]
    exact readsScalar_single (folds_of hordinary hbreak) (column + 1)
  · have hne : t ≠ [] := by
      rintro rfl
      exact absurd htext (by decide)
    have hwords : Words t := by
      refine words_of (fun c hc => or_iff_not_imp_left.mpr fun hs => ?_) hne hfirst hlast
      refine isSeparator_of_isOrdinary (hordinary c hc) hs ?_
      rintro rfl
      exact hfeed hc
    rw [h]
    exact readsScalar_plain hwords hlayout (Plain.resolve_of_isText htext) column

/-- A word denotes what it means, be it itself or something else. -/
theorem readsScalar_word {w : Text} {v : Value} (h0 : w ≠ [])
    (hsolid : ∀ c ∈ w, isSeparator c = false) (hl : looksLikeLayout w = false)
    (hr : Plain.resolve w = some v) : ReadsScalar w v := by
  obtain ⟨column', before', hword⟩ := foldedFrom_word hsolid [] 0 none
  rw [List.append_nil, foldedFrom, List.append_nil] at hword
  rw [← hword]
  exact readsScalar_plain (.last h0 hsolid) hl hr 0

/-! ### Values behind a colon -/

theorem ReadsScalar.readNode_eq {written : Text} {v : Value} (h : ReadsScalar written v)
    {x : Text} (hx : LineStart x) (keyed : Bool) (fuel line place : Nat) (hplace : place ≠ 0) :
    ∃ line', readNode 1 keyed (fuel + 2) ⟨written ++ '\n' :: x, line, place⟩ =
        some (v, ⟨x, line', 0⟩) := by
  obtain ⟨-, -, hdash⟩ := h.start x
  obtain ⟨line', hread⟩ := h.read hx fuel line hplace
  refine ⟨line', ?_⟩
  rw [readNode, hdash, hread]
  simp [hx.isColon_eq]

/-- What may follow a line of a map: the next key or the end. -/
def NextKey (x : Text) : Prop := x = [] ∨ KeyStart x

theorem NextKey.lineStart {x : Text} (h : NextKey x) : LineStart x := h.imp_right .inl

/-- A text behind the colon of a key denotes a value, with some number of steps, and ends
where the next key begins. -/
structure ReadsValue (written : Text) (v : Value) (steps : Nat) : Prop where
  blank : ∀ x, beginsBlank (written ++ x) = true
  read : ∀ {x : Text}, NextKey x → ∀ {fuel : Nat}, steps ≤ fuel → ∀ line place : Nat, ∃ line',
    readMapValue 0 fuel ⟨written ++ x, line, place⟩ = some (v, ⟨x, line', 0⟩)

/-- The gap behind a colon is passed. -/
theorem ValueStart.gap_space {t : Text} (h : ValueStart t) (line column : Nat) :
    Cursor.gap ⟨' ' :: t, line, column⟩ = ⟨t, line, column + 1⟩ := by
  obtain ⟨-, hgap, -⟩ := h
  have := hgap line (column + 1)
  rw [Cursor.gap] at this ⊢
  rw [← this, Cursor.gapFrom, if_neg (by decide), if_neg (by simp), if_pos rfl]

/-- A value behind the colon is read as a node. -/
theorem readMapValue_inline {t : Text} (h : ValueStart t) (fuel line place : Nat) :
    readMapValue 0 (fuel + 1) ⟨' ' :: t, line, place⟩ =
      readNode 1 false fuel ⟨t, line, place + 1⟩ := by
  have hend : (⟨t, line, place + 1⟩ : Cursor).atEnd = false := by
    have hmarker : (⟨t, line, place + 1⟩ : Cursor).isMarker = false :=
      Cursor.isMarker_of_column (by simp)
    simp [Cursor.atEnd, hmarker, h.1]
  rw [readMapValue, h.gap_space, hend]
  simp

theorem ReadsScalar.readsValue {written : Text} {v : Value} (h : ReadsScalar written v) :
    ReadsValue (' ' :: (written ++ ['\n'])) v 3 := by
  refine ⟨fun _ => rfl, fun {x} hx fuel hf line place => ?_⟩
  obtain ⟨fuel, rfl⟩ : ∃ m, fuel = m + 3 := ⟨fuel - 3, by omega⟩
  obtain ⟨line', hread⟩ := h.readNode_eq hx.lineStart false fuel line (place + 1) (by simp)
  refine ⟨line', ?_⟩
  rw [List.cons_append, List.append_assoc]
  exact (readMapValue_inline (h.start x) (fuel + 2) line place).trans hread

/-- The empty list. -/
theorem readsValue_nil : ReadsValue " []\n".toList (.list []) 4 := by
  refine ⟨fun _ => rfl, fun {x} hx fuel hf line place => ?_⟩
  obtain ⟨fuel, rfl⟩ : ∃ m, fuel = m + 4 := ⟨fuel - 4, by omega⟩
  have hstart : ValueStart ('[' :: ']' :: '\n' :: x) :=
    valueStart_cons (by decide) (by decide) (fun h => absurd h (by decide))
  refine ⟨line + 1, ?_⟩
  show readMapValue 0 (fuel + 3 + 1) ⟨' ' :: '[' :: ']' :: '\n' :: x, line, place⟩ = _
  rw [readMapValue_inline hstart]
  have hmarker : (⟨'[' :: ']' :: '\n' :: x, line, place + 1⟩ : Cursor).isMarker = false :=
    Cursor.isMarker_of_column (by simp)
  have hgap : (⟨']' :: '\n' :: x, line, place + 1 + 1⟩ : Cursor).gap =
      ⟨']' :: '\n' :: x, line, place + 1 + 1⟩ :=
    (valueStart_cons (by decide) (by decide) (fun h => absurd h (by decide))).2.1 line _
  have hitems : readItems (fuel + 1) [] ⟨']' :: '\n' :: x, line, place + 1 + 1⟩ =
      some (.list [], ⟨x, line + 1, 0⟩) := by
    rw [readItems]
    simp [Cursor.skip, hx.lineStart.gap_feed]
  rw [readNode, hstart.2.2, readInline, hmarker]
  simp [Cursor.skip, hgap, hitems, hx.lineStart.isColon_eq]

/-! ### Lists -/

/-- An item is read, and the list goes on if a dash follows. -/
theorem readList_item {more : Text} (hmore : LineStart more) (t : Text) (acc : List Value)
    (fuel line : Nat) : ∃ line', readList 0 true (fuel + 3) acc
      ⟨'-' :: ' ' :: (Text.scalar 2 t ++ '\n' :: more), line, 0⟩ =
        if (⟨more, line', 0⟩ : Cursor).isDash then
          readList 0 true (fuel + 2) (.text t :: acc) ⟨more, line', 0⟩
        else some (.list (.text t :: acc).reverse, ⟨more, line', 0⟩) := by
  have hscalar := readsScalar_scalar 2 t
  obtain ⟨line', hread⟩ := hscalar.readNode_eq hmore true fuel line 2 (by decide)
  have hgap := (hscalar.start more).gap_space line 1
  have hend : (⟨Text.scalar 2 t ++ '\n' :: more, line, 2⟩ : Cursor).atEnd = false := by
    have hmarker : (⟨Text.scalar 2 t ++ '\n' :: more, line, 2⟩ : Cursor).isMarker = false :=
      Cursor.isMarker_of_column (by simp)
    simp [Cursor.atEnd, hmarker]
  refine ⟨line', ?_⟩
  rw [readList]
  simp only [Cursor.skip, List.drop_succ_cons, List.drop_zero, hgap, hend, hread]
  by_cases h0 : more = []
  · subst h0
    simp [Cursor.atEnd, Cursor.isDash, Cursor.isMark]
  · simp [hmore.atEnd_eq, h0]

/-- A text as an item of a list, in a line of its own. -/
def itemLine (t : Text) : Text := Value.itemLine (.text t)

theorem itemLine_append (t x : Text) :
    itemLine t ++ x = '-' :: ' ' :: (Text.scalar 2 t ++ '\n' :: x) := by
  simp [itemLine, Value.itemLine, Value.inlineText]

theorem lineStart_itemLine (t x : Text) : LineStart (itemLine t ++ x) :=
  .inr (.inr ⟨_, itemLine_append t x⟩)

theorem NextKey.isDash_eq {x : Text} (h : NextKey x) (line column : Nat) :
    (⟨x, line, column⟩ : Cursor).isDash = false := by
  rcases h with rfl | h
  · rfl
  · exact h.isDash_eq line column

/-- **The items of a list are read back**, and the list ends at the next key. -/
theorem readList_items {x : Text} (hx : NextKey x) : ∀ (items : List Text) (t : Text)
    (acc : List Value) (fuel : Nat), items.length + 3 ≤ fuel → ∀ line : Nat, ∃ line',
    readList 0 true fuel acc ⟨(t :: items).flatMap itemLine ++ x, line, 0⟩ =
      some (.list (acc.reverse ++ (t :: items).map .text), ⟨x, line', 0⟩)
  | [], t, acc, fuel, hf, line => by
    obtain ⟨fuel, rfl⟩ : ∃ m, fuel = m + 3 := ⟨fuel - 3, by simp at hf; omega⟩
    obtain ⟨line', hread⟩ := readList_item hx.lineStart t acc fuel line
    rw [if_neg (by simp [hx.isDash_eq])] at hread
    refine ⟨line', ?_⟩
    rw [List.flatMap_singleton, itemLine_append, hread]
    simp
  | u :: items, t, acc, fuel, hf, line => by
    obtain ⟨fuel, rfl⟩ : ∃ m, fuel = m + 3 := ⟨fuel - 3, by omega⟩
    have hstart : LineStart ((u :: items).flatMap itemLine ++ x) := by
      rw [List.flatMap_cons, List.append_assoc]
      exact lineStart_itemLine u _
    have hdash : ∀ line', (⟨(u :: items).flatMap itemLine ++ x, line', 0⟩ : Cursor).isDash := by
      intro line'
      rw [List.flatMap_cons, List.append_assoc, itemLine_append]
      rfl
    obtain ⟨line', hread⟩ := readList_item hstart t acc fuel line
    obtain ⟨line'', hmore⟩ := readList_items hx items u (.text t :: acc) (fuel + 2)
      (by simp only [List.length_cons] at hf; omega) line'
    rw [if_pos (hdash line'), hmore] at hread
    refine ⟨line'', ?_⟩
    rw [List.flatMap_cons, List.append_assoc, itemLine_append, hread]
    simp

/-- A list of texts as it is written behind the colon of its key. -/
def listLines (items : List Text) : Text :=
  if items.isEmpty then " []\n".toList else '\n' :: items.flatMap itemLine

theorem listLines_cons (t : Text) (items : List Text) :
    listLines (t :: items) = '\n' :: (t :: items).flatMap itemLine := rfl

/-- A list of texts is read back, in either of its forms. -/
theorem readsValue_listLines (items : List Text) :
    ReadsValue (listLines items) (.list (items.map .text)) (items.length + 4) := by
  cases items with
  | nil => exact readsValue_nil
  | cons t items =>
    rw [listLines_cons]
    refine ⟨fun _ => rfl, fun {x} hx fuel hf line place => ?_⟩
    obtain ⟨fuel, rfl⟩ : ∃ m, fuel = m + 1 := ⟨fuel - 1, by omega⟩
    have hstart : LineStart ((t :: items).flatMap itemLine ++ x) := by
      rw [List.flatMap_cons, List.append_assoc]
      exact lineStart_itemLine t _
    have hdash : (⟨(t :: items).flatMap itemLine ++ x, line + 1, 0⟩ : Cursor).isDash := by
      rw [List.flatMap_cons, List.append_assoc, itemLine_append]
      rfl
    have hne : ((t :: items).flatMap itemLine ++ x).isEmpty = false := by
      rw [List.flatMap_cons, List.append_assoc, itemLine_append]
      rfl
    obtain ⟨line', hread⟩ := readList_items hx items t [] fuel
      (by simp only [List.length_cons] at hf; omega) (line + 1)
    refine ⟨line', ?_⟩
    rw [List.cons_append, readMapValue, hstart.gap_feed, hstart.atEnd_eq, hne]
    generalize (t :: items).flatMap itemLine ++ x = y at hdash hread ⊢
    simp [hdash, hread]

/-! ### Keys -/

/-- A key is one word of which no character has a meaning of its own. -/
structure IsKey (k : Text) : Prop where
  start : KeyStart k
  layout : looksLikeLayout k = false
  solid : ∀ c ∈ k, (!isSeparator c && c != ':') = true
  isText : Plain.isText k = true
  short : k.length ≤ 1000

theorem plainRun_key {k y : Text} (h : ∀ c ∈ k, (!isSeparator c && c != ':') = true)
    (hy : beginsBlank y = true) : plainRun false (k ++ ':' :: y) = k := by
  induction k with
  | nil =>
    have hend : endsKey false y = true := by
      cases y with
      | nil => rfl
      | cons c r =>
        have hc : isSeparator c = true := hy
        simp [endsKey, hc]
    simp [plainRun, hend]
  | cons c k ih =>
    rw [List.forall_mem_cons] at h
    obtain ⟨hc, hrest⟩ := h
    simp only [Bool.and_eq_true, Bool.not_eq_true', bne_iff_ne] at hc
    simp [plainRun, hc, ih hrest]

/-- A key is read up to its colon. -/
theorem IsKey.readInline_eq {k y : Text} (h : IsKey k) (hy : beginsBlank y = true)
    (least fuel line column : Nat) :
    readInline false least (fuel + 1) ⟨k ++ ':' :: y, line, column⟩ =
      some (.text k, ⟨':' :: y, line, column + k.length⟩) := by
  have hcolon : Solid (':' :: y) := solid_cons (by decide) y
  have hrun := plainRun_key h.solid hy
  have hpass := Cursor.passBlanks_spaces hcolon false 0 line (column + k.length)
  have hplain : Cursor.plain false least ⟨k ++ ':' :: y, line, column⟩ =
      (k, ⟨':' :: y, line, column + k.length⟩) := by
    obtain ⟨fuel, hfuel⟩ : ∃ m, (k ++ ':' :: y).length = m + 1 :=
      ⟨k.length + y.length, by simp [Nat.add_assoc]⟩
    rw [List.replicate_zero, List.nil_append, Nat.add_zero] at hpass
    rw [Cursor.plain, hfuel, Cursor.plainFrom, hrun]
    simp [Cursor.skip, hpass]
  have hgap : (⟨':' :: y, line, column + k.length⟩ : Cursor).gap =
      ⟨':' :: y, line, column + k.length⟩ :=
    (valueStart_cons (by decide) (by decide) fun hd => absurd hd (by decide)).2.1 _ _
  have hresolve := Plain.resolve_of_isText h.isText
  obtain ⟨c, r, rfl, ha, hz⟩ := h.start
  have hmarker := LineStart.isMarker_eq (.inr (.inl ⟨c, r ++ ':' :: y, rfl, ha, hz⟩)) line column
  obtain ⟨hdivider, hmarks, -⟩ := head_of_layout h.layout
  have hbegins : beginsPlain false (c :: (r ++ ':' :: y)) = true := by
    have hdash : c ≠ '-' := ne_of_lower ha hz (by decide)
    have hquestion : c ≠ '?' := ne_of_lower ha hz (by decide)
    have hcolon : c ≠ ':' := ne_of_lower ha hz (by decide)
    have hsolid := h.solid c (List.mem_cons_self ..)
    rw [Bool.and_eq_true, Bool.not_eq_true'] at hsolid
    rw [beginsPlain, if_neg hdash, if_neg (by simp [hquestion, hcolon]), hsolid.1, hdivider, hmarks]
    rfl
  rw [List.cons_append] at hplain ⊢
  rw [readInline_of_beginsPlain hmarker hbegins, hplain, hresolve]
  simp only [Option.map_some, hgap]

/-- **A key and its value are read**, and then the next key or the end. -/
theorem readMap_key {k written x : Text} {v : Value} {steps : Nat} (hk : IsKey k)
    (hv : ReadsValue written v steps) (hx : NextKey x) (pairs : List (Value × Value)) (n : Nat)
    (hf : steps ≤ n + 1) (line : Nat) : ∃ line',
    readMap 0 (n + 2) pairs ⟨k ++ ':' :: (written ++ x), line, 0⟩ =
      if x = [] then some (.map (Value.setKey (.text k) v pairs), ⟨x, line', 0⟩)
      else readMap 0 (n + 1) (Value.setKey (.text k) v pairs) ⟨x, line', 0⟩ := by
  obtain ⟨line', hread⟩ := hv.read hx hf line (k.length + 1)
  have hblank := hv.blank x
  have hkey := hk.readInline_eq hblank 1 n line 0
  generalize hy : written ++ x = y at hread hblank hkey ⊢
  have hcolon : (⟨':' :: y, line, k.length⟩ : Cursor).isColon false = true := by
    simp [Cursor.isColon, Cursor.isMark, hblank]
  have hupTo : (⟨':' :: y, line, k.length⟩ : Cursor).isKeyUpTo ⟨k ++ ':' :: y, line, 0⟩ = true := by
    have hshort := hk.short
    simp [Cursor.isKeyUpTo]
    omega
  have hisKey : (Value.text k).isKey = true := rfl
  refine ⟨line', ?_⟩
  rw [readMap, hkey]
  simp [Cursor.skip, hread, hcolon, hupTo, hisKey, hx.lineStart.atEnd_eq]

/-- Is the text a key? -/
def isKeyText (k : Text) : Bool :=
  k.head?.any (fun c => 'a' ≤ c && c ≤ 'z') && !looksLikeLayout k
    && k.all (fun c => !isSeparator c && c != ':') && Plain.isText k && k.length ≤ 1000

theorem isKey_of_isKeyText {k : Text} (h : isKeyText k = true) : IsKey k := by
  simp only [isKeyText, Bool.and_eq_true, Bool.not_eq_true', List.all_eq_true,
    decide_eq_true_eq] at h
  obtain ⟨⟨⟨⟨hstart, hlayout⟩, hsolid⟩, htext⟩, hshort⟩ := h
  refine ⟨?_, hlayout, fun c hc => by simpa using hsolid c hc, htext, hshort⟩
  cases k with
  | nil => cases hstart
  | cons c r =>
    have hc : 'a' ≤ c ∧ c ≤ 'z' := by simpa using hstart
    exact ⟨c, r, rfl, hc⟩

namespace Settings

theorem isKey_of_mem_keys : ∀ k ∈ keys, IsKey k := by
  have h : keys.all isKeyText = true := by decide +kernel
  exact fun k hk => isKey_of_isKeyText (List.all_eq_true.mp h k hk)

theorem isKey_extensions : IsKey extensionsKey := isKey_of_mem_keys _ (by simp [keys])

theorem isKey_backup : IsKey backupKey := isKey_of_mem_keys _ (by simp [keys])

theorem isKey_special : IsKey specialKey := isKey_of_mem_keys _ (by simp [keys])

end Settings

theorem IsKey.keyStart {k : Text} (h : IsKey k) (x : Text) : KeyStart (k ++ x) := by
  obtain ⟨c, r, rfl, ha, hz⟩ := h.start
  exact ⟨c, r ++ x, rfl, ha, hz⟩

/-! ### The characters of a document -/

theorem ordinary_foldedFrom (quoted : Bool) : ∀ {t : Text}, Ordinary t →
    ∀ (column : Nat) (before : Option Char), Ordinary (foldedFrom quoted column before t)
  | [], _, _, _ => ordinary_nil
  | c :: r, h, column, before => by
    rw [ordinary_cons] at h
    have ih := fun column => ordinary_foldedFrom quoted h.2 column (some c)
    have hfeed : isOrdinary '\n' = true := by decide
    have hspace : isOrdinary ' ' = true := by decide
    have hquote : isOrdinary '\'' = true := by decide
    rw [foldedFrom]
    split_ifs <;> simp [ordinary_cons, hfeed, hspace, hquote, h.1, ih]

theorem isOrdinary_upper_digitChar : ∀ d < 16, isOrdinary (Nat.digitChar d).toUpper = true := by
  decide

theorem ordinary_hex (width n : Nat) : Ordinary ((Text.hex width n).map Char.toUpper) := by
  intro c hc
  obtain ⟨x, hx, rfl⟩ := List.mem_map.mp hc
  rcases List.mem_append.mp hx with hx | hx
  · rw [List.eq_of_mem_replicate hx]
    decide
  · obtain ⟨d, hd, rfl⟩ := exists_digitChar hx
    exact isOrdinary_upper_digitChar d hd

theorem ordinary_escape {c : Char} {e : Text} (h : escape? c = some e) : Ordinary e := by
  have hletters : (escapeLetters.all fun p => isOrdinary p.2) = true := by decide
  have hbackslash : isOrdinary '\\' = true := by decide
  unfold escape? at h
  simp only at h
  split at h
  · cases h
  · split at h
    · rename_i letter hlookup
      have hletter := List.all_eq_true.mp hletters _ (mem_of_lookup hlookup)
      cases h
      simp [ordinary_cons, ordinary_nil, hbackslash, hletter]
    · split_ifs at h <;> cases h
      · simpa [ordinary_cons, hbackslash] using ⟨by decide, ordinary_hex 2 _⟩
      · simpa [ordinary_cons, hbackslash] using ⟨by decide, ordinary_hex 4 _⟩
      · simpa [ordinary_cons, hbackslash] using ⟨by decide, ordinary_hex 8 _⟩

theorem ordinary_doubleBreak (next : Text) : Ordinary (doubleBreak next) := by
  unfold doubleBreak
  split_ifs
  · exact List.all_eq_true.mp (by decide)
  · exact List.all_eq_true.mp (by decide)

theorem ordinary_doubleFrom : ∀ (t : Text) (first escaped : Bool) (column : Nat),
    Ordinary (doubleFrom first escaped column t)
  | [], _, _, _ => ordinary_nil
  | c :: r, first, escaped, column => by
    have ih := fun escaped column => ordinary_doubleFrom r false escaped column
    rw [doubleFrom]
    cases he : escape? c with
    | some e =>
      have hescape := ordinary_escape he
      simp only
      split
      · exact ordinary_append.mpr
          ⟨ordinary_append.mpr ⟨hescape, ordinary_doubleBreak r⟩, ih _ _⟩
      · exact ordinary_append.mpr ⟨hescape, ih _ _⟩
    | none =>
      obtain ⟨hlow, hhigh, -, -⟩ := escape?_eq_none he
      have hc : Ordinary [c] := by simp [ordinary_cons, ordinary_nil, isOrdinary, hlow, hhigh]
      simp only
      split
      · exact ordinary_append.mpr
          ⟨ordinary_append.mpr ⟨ordinary_doubleBreak (c :: r), hc⟩, ih _ _⟩
      · exact ordinary_append.mpr ⟨hc, ih _ _⟩

theorem ordinary_scalar (column : Nat) (t : Text) : Ordinary (Text.scalar column t) := by
  have hquote : isOrdinary '\'' = true ∧ isOrdinary '"' = true := by decide
  unfold Text.scalar
  rcases t.style_cases with h | ⟨h, ht, -⟩ | ⟨h, ht, -⟩
  · simp [h, ordinary_append, ordinary_cons, ordinary_nil, hquote, ordinary_doubleFrom]
  · simp [h, ordinary_append, ordinary_cons, ordinary_nil, hquote, ordinary_foldedFrom true ht]
  · simp [h, ordinary_foldedFrom false ht]

/-! ### Documents of settings -/

namespace Settings

/-- The words that stand for what is fixed. -/
def words : List Text := ["null".toList, "true".toList, "false".toList]

/-- The words are one word each, none of which looks like layout. -/
theorem words_plain : ∀ w ∈ words, w ≠ [] ∧ (∀ c ∈ w, isSeparator c = false) ∧
    looksLikeLayout w = false ∧ Ordinary w := by
  have h : (words.all fun w => !w.isEmpty && w.all (fun c => !isSeparator c)
      && !looksLikeLayout w && w.all isOrdinary) = true := by decide +kernel
  intro w hw
  simpa [and_assoc, Ordinary] using List.all_eq_true.mp h w hw

/-- The words mean what they say. -/
theorem resolve_words : Plain.resolve "null".toList = some .null ∧
    Plain.resolve "true".toList = some (.bool true) ∧
    Plain.resolve "false".toList = some (.bool false) := by
  have h : Plain.nullWords.contains "null".toList = true ∧
      Plain.nullWords.contains "true".toList = false ∧
      Plain.trueWords.contains "true".toList = true ∧
      Plain.nullWords.contains "false".toList = false ∧
      Plain.trueWords.contains "false".toList = false ∧
      Plain.falseWords.contains "false".toList = true := by decide +kernel
  obtain ⟨h1, h2, h3, h4, h5, h6⟩ := h
  unfold Plain.resolve
  refine ⟨if_pos h1, ?_, ?_⟩
  · rw [if_neg (by rw [h2]; decide), if_pos h3]
  · rw [if_neg (by rw [h4]; decide), if_neg (by rw [h5]; decide), if_pos h6]

theorem readsScalar_of_mem_words {w : Text} {v : Value} (hw : w ∈ words)
    (hr : Plain.resolve w = some v) : ReadsScalar w v := by
  obtain ⟨h0, hsolid, hl, -⟩ := words_plain w hw
  exact readsScalar_word h0 hsolid hl hr

theorem readsScalar_null : ReadsScalar "null".toList .null :=
  readsScalar_of_mem_words (by simp [words]) resolve_words.1

theorem readsScalar_bool (b : Bool) :
    ReadsScalar (if b then "true".toList else "false".toList) (.bool b) := by
  cases b with
  | true => exact readsScalar_of_mem_words (by simp [words]) resolve_words.2.1
  | false => exact readsScalar_of_mem_words (by simp [words]) resolve_words.2.2

/-- The backup folder as it is written. -/
def backupText (s : Settings) : Text :=
  match s.backupFolder with
  | some t => Text.scalar (backupKey.length + 2) t
  | none => "null".toList

/-- The preference of special solutions as it is written. -/
def specialText (s : Settings) : Text :=
  if s.preferSpecial then "true".toList else "false".toList

theorem readsScalar_backupText (s : Settings) : ReadsScalar s.backupText s.backupValue := by
  unfold backupText backupValue
  cases s.backupFolder with
  | none => exact readsScalar_null
  | some t => exact readsScalar_scalar _ t

/-- A key is written as it is. -/
theorem scalar_key : ∀ k ∈ keys, Text.scalar 0 k = k := by
  have h : (keys.all fun k => Text.scalar 0 k == k) = true := by decide +kernel
  intro k hk
  exact eq_of_beq (List.all_eq_true.mp h k hk)

theorem pairLines_extensions (items : List Text) :
    Value.pairLines (.text extensionsKey) (.list (items.map .text)) =
      extensionsKey ++ ':' :: listLines items := by
  have hkey := scalar_key extensionsKey (by simp [keys])
  cases items with
  | nil =>
    simp only [Value.pairLines, Value.inlineText, List.map_nil, hkey, List.append_assoc]
    rfl
  | cons t items =>
    have hlines : (Value.text t :: items.map .text).flatMap Value.itemLine =
        (t :: items).flatMap itemLine := by
      rw [← List.map_cons, List.flatMap_map]
      rfl
    simp only [Value.pairLines, Value.inlineText, List.map_cons, hkey, hlines, listLines_cons,
      List.append_assoc]
    rfl

theorem pairLines_backup (s : Settings) :
    Value.pairLines (.text backupKey) s.backupValue =
      backupKey ++ ':' :: ' ' :: (s.backupText ++ ['\n']) := by
  have hkey := scalar_key backupKey (by simp [keys])
  unfold backupValue backupText
  cases s.backupFolder with
  | none => simp [Value.pairLines, hkey, Value.inlineText]
  | some t => simp [Value.pairLines, hkey, Value.inlineText]

theorem pairLines_special (s : Settings) :
    Value.pairLines (.text specialKey) (.bool s.preferSpecial) =
      specialKey ++ ':' :: ' ' :: (s.specialText ++ ['\n']) := by
  have hkey := scalar_key specialKey (by simp [keys])
  simp [Value.pairLines, hkey, Value.inlineText, specialText]

/-- The document of settings as a text. -/
def document (s : Settings) : Text := s.toValue.document

/-- The document of settings, key by key. -/
theorem document_eq (s : Settings) : s.document =
    extensionsKey ++ ':' :: (listLines s.extensions ++ (backupKey ++ ':' ::
      (' ' :: (s.backupText ++ ['\n']) ++ (specialKey ++ ':' ::
        (' ' :: (s.specialText ++ ['\n']) ++ []))))) := by
  have hdocument : s.document =
      Value.pairLines (.text extensionsKey) (.list (s.extensions.map .text))
        ++ (Value.pairLines (.text backupKey) s.backupValue
          ++ (Value.pairLines (.text specialKey) (.bool s.preferSpecial) ++ [])) := rfl
  rw [hdocument, pairLines_extensions, pairLines_backup, pairLines_special]
  simp only [List.append_assoc, List.cons_append, List.nil_append, List.append_nil]

theorem ordinary_listLines (items : List Text) : Ordinary (listLines items) := by
  cases items with
  | nil => simp [listLines, ordinary_cons, ordinary_nil, isOrdinary]
  | cons t items =>
    have hfeed : isOrdinary '\n' = true ∧ isOrdinary '-' = true ∧ isOrdinary ' ' = true := by decide
    rw [listLines_cons, ordinary_cons]
    refine ⟨hfeed.1, fun c hc => ?_⟩
    obtain ⟨u, -, hu⟩ := List.mem_flatMap.mp hc
    have hitem : Ordinary (itemLine u) := by
      simp [itemLine, Value.itemLine, Value.inlineText, ordinary_append, ordinary_cons,
        ordinary_nil, hfeed, ordinary_scalar]
    exact hitem c hu

theorem ordinary_backupText (s : Settings) : Ordinary s.backupText := by
  unfold backupText
  cases s.backupFolder with
  | none => exact (words_plain _ (by simp [words])).2.2.2
  | some t => exact ordinary_scalar _ t

theorem ordinary_specialText (s : Settings) : Ordinary s.specialText := by
  unfold specialText
  cases s.preferSpecial with
  | true => exact (words_plain _ (by simp [words])).2.2.2
  | false => exact (words_plain _ (by simp [words])).2.2.2

theorem ordinary_document (s : Settings) : Ordinary s.document := by
  have hkeys : Ordinary (extensionsKey ++ backupKey ++ specialKey ++ [':', '\n', ' ']) :=
    List.all_eq_true.mp (by decide +kernel)
  simp only [ordinary_append, ordinary_cons] at hkeys
  simp only [document_eq, ordinary_append, ordinary_cons, hkeys, ordinary_listLines,
    ordinary_backupText, ordinary_specialText, and_self]

end Settings

theorem isWritable_of_isOrdinary {c : Char} (h : isOrdinary c = true) : isWritable c = true := by
  simp only [isOrdinary, Bool.or_eq_true, beq_iff_eq] at h
  rcases h with rfl | h
  · decide
  · simp [isWritable, h]

theorem KeyStart.dropMark_eq {t : Text} (h : KeyStart t) : dropMark t = t := by
  obtain ⟨c, r, rfl, ha, hz⟩ := h
  have hc : c ≠ '\ufeff' := ne_of_lower ha hz (by decide)
  simp [dropMark, hc]

/-- A document that begins with a key is a map. -/
theorem IsKey.readNode_eq {k y : Text} (h : IsKey k) (hy : beginsBlank y = true)
    (fuel line : Nat) : readNode 0 true (fuel + 2) ⟨k ++ ':' :: y, line, 0⟩ =
      readMap 0 (fuel + 1) [] ⟨k ++ ':' :: y, line, 0⟩ := by
  have hcolon : (⟨':' :: y, line, 0 + k.length⟩ : Cursor).isColon false = true := by
    simp [Cursor.isColon, Cursor.isMark, hy]
  rw [readNode, (h.keyStart _).isDash_eq, h.readInline_eq hy]
  simp only [Bool.false_eq_true, ↓reduceIte, Option.bind_eq_bind, Option.bind_some, hcolon,
    Bool.not_true]

theorem length_items_le (items : List Text) : items.length ≤ (listLines items).length := by
  cases items with
  | nil => exact Nat.zero_le _
  | cons t items =>
    have h : ∀ l : List Text, l.length ≤ (l.flatMap itemLine).length := by
      intro l
      induction l with
      | nil => exact Nat.le_refl _
      | cons u l ih =>
        rw [List.flatMap_cons, itemLine_append]
        simp only [List.length_cons, List.length_append]
        omega
    rw [listLines_cons]
    exact (h (t :: items)).trans (Nat.le_succ _)

namespace Settings

theorem setKey_keys (a b c : Value) :
    Value.setKey (.text specialKey) c (Value.setKey (.text backupKey) b
      (Value.setKey (.text extensionsKey) a [])) =
        [(.text extensionsKey, a), (.text backupKey, b), (.text specialKey, c)] := by
  obtain ⟨h12, h13, h23⟩ := nodup_keys
  simp [Value.setKey, Value.sameKey, h12, h13, h23]

/-- The three keys of a document are read one after another. -/
theorem readMap_document (s : Settings) (n line : Nat) (hn : s.extensions.length + 4 ≤ n) :
    ∃ line', readMap 0 (n + 3) [] ⟨s.document, line, 0⟩ = some (s.toValue, ⟨[], line', 0⟩) := by
  have hlist := readsValue_listLines s.extensions
  have hbackup := (readsScalar_backupText s).readsValue
  have hspecial := (readsScalar_bool s.preferSpecial).readsValue
  rw [document_eq]
  set z := specialKey ++ ':' :: (' ' :: (s.specialText ++ ['\n']) ++ []) with hz
  set y := backupKey ++ ':' :: (' ' :: (s.backupText ++ ['\n']) ++ z) with hy
  have hyKey : KeyStart y := isKey_backup.keyStart _
  have hzKey : KeyStart z := isKey_special.keyStart _
  obtain ⟨line₁, h1⟩ := readMap_key isKey_extensions hlist (.inr hyKey) [] (n + 1) (by omega) line
  obtain ⟨line₂, h2⟩ := readMap_key isKey_backup hbackup (.inr hzKey)
    (Value.setKey (.text extensionsKey) (.list (s.extensions.map .text)) []) n (by omega) line₁
  obtain ⟨line₃, h3⟩ := readMap_key isKey_special hspecial (.inl rfl)
    (Value.setKey (.text backupKey) s.backupValue
      (Value.setKey (.text extensionsKey) (.list (s.extensions.map .text)) [])) (n - 1)
    (by omega) line₂
  rw [if_neg hyKey.ne_nil] at h1
  rw [if_neg hzKey.ne_nil] at h2
  rw [if_pos rfl, show n - 1 + 2 = n + 1 by omega, setKey_keys] at h3
  exact ⟨line₃, h1.trans (h2.trans h3)⟩

/-- **A document of settings denotes what was written.** -/
theorem read?_document (s : Settings) : Value.read? s.document = some s.toValue := by
  have hordinary := ordinary_document s
  have hwritable : s.document.all isWritable = true :=
    List.all_eq_true.mpr fun c hc => isWritable_of_isOrdinary (hordinary c hc)
  have hdoc := document_eq s
  have hkey : KeyStart s.document := hdoc ▸ isKey_extensions.keyStart _
  have hlength : s.extensions.length < s.document.length := by
    have := length_items_le s.extensions
    rw [hdoc]
    simp only [List.length_append, List.length_cons]
    omega
  obtain ⟨line, hmap⟩ := readMap_document s (4 * s.document.length + 4) 0 (by omega)
  have hnode : readNode 0 true (4 * s.document.length + 8) ⟨s.document, 0, 0⟩ =
      some (s.toValue, ⟨[], line, 0⟩) := by
    rw [← hmap, hdoc]
    exact isKey_extensions.readNode_eq ((readsValue_listLines s.extensions).blank _) _ 0
  have hopening : (⟨s.document, 0, 0⟩ : Cursor).isOpening = false := by
    have := hkey.lineStart.isMarker_eq 0 0
    rw [Cursor.isMarker, Bool.or_eq_false_iff] at this
    exact this.1
  have hgap := hkey.lineStart.gap_eq 0 0
  have hclosed : isClosed (4 * s.document.length + 8) ⟨[], line, 0⟩ = true := rfl
  unfold Value.read?
  simp only [hkey.dropMark_eq, Cursor.start, hgap, hwritable,
    hopening, hnode]
  simp [hkey.ne_nil, hclosed]

end Settings

/-- **The format that the program runs with** reads the documents that it writes for settings,
and they hold no carriage return. -/
theorem Yaml.simple_faithful : Yaml.Faithful .simple where
  load_dump s := by
    have hread : Value.read? s.toValue.document = some s.toValue := Settings.read?_document s
    simp only [Yaml.simple, hread]
  no_return s h := absurd (Settings.ordinary_document s _ h) (by decide)

end Handout
