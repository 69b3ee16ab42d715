/-
# Escaped scalars are read back

Between double quotes a character that is not visible ASCII is written as an escape, by a
letter or by the digits of its code, and the digits denote the code again (`number_hex`).
A line is broken after a backslash, and the reader passes the break and the indentation
behind it.

What is written is a sequence of parts, and each part in front of a text that is read back
gives one that is read back, too (`ReadsBack`). Only the spaces are not read one by one:
the reader takes a run of them at once, whatever the writer did in between. So the
induction is on the text, with a run of spaces in front that waits for its end
(`readsBack_doubleFrom`).

Key definitions: `ReadsBack`.
Key theorems: `ofHex?_hex`, `ReadsBack.escape`, `readsBack_doubleFrom`.
-/
import Handout.Proofs.Folding
import Mathlib.Data.Nat.Digits.Defs

namespace Handout

/-! ### Hexadecimal digits -/

theorem upper_digitChar : ∀ d < 16, ((Nat.digitChar d).toUpper ≠ '_' ∧
    Plain.digitValue (Nat.digitChar d).toUpper = d) ∧
      (Plain.isDigit (Nat.digitChar d).toUpper ||
        ('a' ≤ (Nat.digitChar d).toUpper && (Nat.digitChar d).toUpper ≤ 'f') ||
        ('A' ≤ (Nat.digitChar d).toUpper && (Nat.digitChar d).toUpper ≤ 'F')) = true := by
  decide

theorem number_concat (base : Nat) {c : Char} (h : c ≠ '_') (t : Text) :
    Plain.number base (t ++ [c]) = Plain.number base t * base + Plain.digitValue c := by
  simp [Plain.number, List.filter_append, h]

theorem number_zeros (base : Nat) (t : Text) : ∀ n : Nat,
    Plain.number base (List.replicate n '0' ++ t) = Plain.number base t
  | 0 => rfl
  | n + 1 => by
    have ih := number_zeros base t n
    have hzero : Plain.digitValue '0' = 0 := by decide
    rw [← ih]
    simp [Plain.number, List.replicate_succ, hzero]

/-- The digits of a number denote it. -/
theorem number_toDigits (n : Nat) :
    Plain.number 16 ((Nat.toDigits 16 n).map Char.toUpper) = n := by
  induction n using Nat.strong_induction_on with
  | _ n ih =>
    rw [Nat.toDigits_eq_if (by decide)]
    split_ifs with h
    · obtain ⟨⟨hline, hvalue⟩, -⟩ := upper_digitChar n h
      have := number_concat 16 hline []
      simpa [Plain.number, hvalue] using this
    · obtain ⟨⟨hline, hvalue⟩, -⟩ := upper_digitChar (n % 16) (Nat.mod_lt _ (by decide))
      rw [List.map_append, List.map_singleton, number_concat 16 hline, ih (n / 16) (by omega),
        hvalue]
      omega

theorem exists_digitChar {n : Nat} {c : Char} (h : c ∈ Nat.toDigits 16 n) :
    ∃ d < 16, c = Nat.digitChar d := by
  induction n using Nat.strong_induction_on with
  | _ n ih =>
    rw [Nat.toDigits_eq_if (by decide)] at h
    split_ifs at h with hn
    · exact ⟨n, hn, List.mem_singleton.mp h⟩
    · rcases List.mem_append.mp h with h | h
      · exact ih (n / 16) (by omega) h
      · exact ⟨n % 16, Nat.mod_lt _ (by decide), List.mem_singleton.mp h⟩

theorem length_hex {width n : Nat} (hw : 0 < width) (h : n < 16 ^ width) :
    (Text.hex width n).length = width := by
  have := (Nat.length_toDigits_le_iff (b := 16) (by decide) hw).mpr h
  rw [Text.hex, List.length_append, List.length_replicate]
  omega

/-- The digits of the code of a character denote the character. -/
theorem ofHex?_hex (width : Nat) (c : Char) :
    ofHex? ((Text.hex width c.toNat).map Char.toUpper) = some c := by
  have hzero : '0'.toUpper = '0' := by decide
  have hnumber : Plain.number 16 ((Text.hex width c.toNat).map Char.toUpper) = c.toNat := by
    rw [Text.hex, List.map_append, List.map_replicate, hzero, number_zeros, number_toDigits]
  have hvalid : c.toNat.isValidChar := c.valid
  have hhex : ∀ d ∈ (Text.hex width c.toNat).map Char.toUpper,
      (Plain.isDigit d || ('a' ≤ d && d ≤ 'f') || ('A' ≤ d && d ≤ 'F')) = true := by
    intro d hd
    obtain ⟨x, hx, rfl⟩ := List.mem_map.mp hd
    rcases List.mem_append.mp hx with hx | hx
    · rw [List.eq_of_mem_replicate hx]
      decide
    · obtain ⟨v, hv, rfl⟩ := exists_digitChar hx
      exact (upper_digitChar v hv).2
  unfold ofHex?
  simp only [hnumber]
  rw [if_pos, Char.ofNat_toNat]
  rw [Bool.and_eq_true, List.all_eq_true]
  exact ⟨hhex, decide_eq_true hvalid⟩

/-! ### Steps of the reader -/

namespace Cursor

theorem prepend_nil (p : Option (Text × Cursor)) : prepend [] p = p := by
  cases p <;> rfl

theorem doubleFrom_letter {e c : Char} (h : escapes.lookup e = some c) (fuel : Nat) (x : Text)
    (line column : Nat) : doubleFrom (fuel + 1) ⟨'\\' :: e :: x, line, column⟩ =
      prepend [c] (doubleFrom fuel ⟨x, line, column + 2⟩) := by
  simp [doubleFrom, h, skip]

theorem doubleFrom_hex {e c : Char} (he : escapes.lookup e = none) {digits : Text}
    (hw : escapeWidth? e = some digits.length) (h : ofHex? digits = some c) (fuel : Nat) (x : Text)
    (line column : Nat) : doubleFrom (fuel + 1) ⟨'\\' :: e :: (digits ++ x), line, column⟩ =
      prepend [c] (doubleFrom fuel ⟨x, line, column + (2 + digits.length)⟩) := by
  have hdrop : ('\\' :: e :: (digits ++ x)).drop (2 + digits.length) = x := by
    rw [Nat.add_comm]
    exact List.drop_left
  simp [doubleFrom, he, hw, h, skip, hdrop]

theorem doubleFrom_char {c : Char} (hc : isSeparator c = false) (hq : c ≠ '"') (hb : c ≠ '\\')
    (fuel : Nat) (x : Text) (line column : Nat) : doubleFrom (fuel + 1) ⟨c :: x, line, column⟩ =
      prepend [c] (doubleFrom fuel ⟨x, line, column + 1⟩) := by
  simp [doubleFrom, hc, hb, skip]

theorem doubleFrom_break {x : Text} (h : Solid x) (fuel line column : Nat) :
    doubleFrom (fuel + 1) ⟨'\\' :: '\n' :: ' ' :: ' ' :: x, line, column⟩ =
      doubleFrom fuel ⟨x, line + 1, 2⟩ := by
  have hlookup : escapes.lookup '\n' = none := by decide
  have hwidth : escapeWidth? '\n' = none := by decide
  have hbreak : isLineBreak '\n' = true := by decide
  have hmarker : (⟨x, line + 1, 2⟩ : Cursor).isMarker = false := isMarker_of_column (by simp)
  simp [doubleFrom, hlookup, hwidth, hbreak, passBreaks_indented h, hmarker, prepend_nil]

theorem doubleFrom_spaces {x : Text} (h : Solid x) (n fuel line column : Nat) :
    doubleFrom (fuel + 1) ⟨List.replicate (n + 1) ' ' ++ x, line, column⟩ =
      prepend (List.replicate (n + 1) ' ') (doubleFrom fuel ⟨x, line, column + (n + 1)⟩) := by
  have hpass := passBlanks_spaces h true (n + 1) line column
  have hspace : isSeparator ' ' = true := by decide
  have hmarker : (⟨x, line, column + (n + 1)⟩ : Cursor).isMarker = false :=
    isMarker_of_column (by simp)
  rw [List.replicate_succ, List.cons_append] at hpass ⊢
  simp [doubleFrom, hspace, hpass, hmarker]

end Cursor

/-! ### Parts that are read back -/

theorem mem_of_lookup {c letter : Char} (h : escapeLetters.lookup c = some letter) :
    (c, letter) ∈ escapeLetters := by
  obtain ⟨l, r, hl, -⟩ := List.lookup_eq_some_iff.mp h
  rw [hl]
  exact List.mem_append_right _ (List.mem_cons_self ..)

/-- A text between double quotes is read as another one, wherever it stands. -/
structure ReadsBack (rest written t : Text) : Prop where
  read : ∀ fuel line place : Nat, written.length < fuel → ∃ line' place',
    Cursor.doubleFrom fuel ⟨written ++ '"' :: rest, line, place⟩ = some (t, ⟨rest, line', place'⟩)

namespace ReadsBack

variable {rest written t : Text}

theorem nil (rest : Text) : ReadsBack rest [] [] := by
  refine ⟨fun fuel line place hf => ?_⟩
  obtain ⟨fuel, rfl⟩ : ∃ m, fuel = m + 1 := Nat.exists_eq_succ_of_ne_zero (by omega)
  exact ⟨line, place + 1, rfl⟩

/-- A part that the reader takes in one step. -/
theorem step (part piece : Text) (hpos : 0 < part.length)
    (hread : ∀ fuel line place, ∃ line' place',
      Cursor.doubleFrom (fuel + 1) ⟨part ++ (written ++ '"' :: rest), line, place⟩ =
        Cursor.prepend piece (Cursor.doubleFrom fuel ⟨written ++ '"' :: rest, line', place'⟩))
    (h : ReadsBack rest written t) : ReadsBack rest (part ++ written) (piece ++ t) := by
  refine ⟨fun fuel line place hf => ?_⟩
  rw [List.length_append] at hf
  obtain ⟨fuel, rfl⟩ : ∃ m, fuel = m + 1 := Nat.exists_eq_succ_of_ne_zero (by omega)
  obtain ⟨line', place', hstep⟩ := hread fuel line place
  obtain ⟨line'', place'', hrest⟩ := h.read fuel line' place' (by omega)
  exact ⟨line'', place'', by rw [List.append_assoc, hstep, hrest]; rfl⟩

theorem solid_append_quote (h : Solid written) (rest : Text) : Solid (written ++ '"' :: rest) := by
  cases written with
  | nil => exact solid_cons (by decide) rest
  | cons c r => exact solid_cons (h c rfl) _

theorem spaces (hs : Solid written) (h : ReadsBack rest written t) : ∀ n : Nat,
    ReadsBack rest (List.replicate n ' ' ++ written) (List.replicate n ' ' ++ t)
  | 0 => h
  | n + 1 => h.step _ _ (by simp) fun fuel line _ =>
      ⟨line, _, Cursor.doubleFrom_spaces (solid_append_quote hs rest) n fuel line _⟩

theorem keptSpace (h : ReadsBack rest written t) :
    ReadsBack rest ('\\' :: ' ' :: written) (' ' :: t) :=
  h.step ['\\', ' '] [' '] (by simp) fun fuel line _ =>
    ⟨line, _, Cursor.doubleFrom_letter (by decide) fuel _ line _⟩

theorem char {c : Char} (hc : isSeparator c = false) (hq : c ≠ '"') (hb : c ≠ '\\')
    (h : ReadsBack rest written t) : ReadsBack rest (c :: written) (c :: t) :=
  h.step [c] [c] (by simp) fun fuel line _ =>
    ⟨line, _, Cursor.doubleFrom_char hc hq hb fuel _ line _⟩

theorem lineBreak (hs : Solid written) (h : ReadsBack rest written t) :
    ReadsBack rest ('\\' :: '\n' :: ' ' :: ' ' :: written) t := by
  refine h.step ['\\', '\n', ' ', ' '] [] (by simp) fun fuel line _ =>
    ⟨line + 1, 2, ?_⟩
  rw [Cursor.prepend_nil]
  exact Cursor.doubleFrom_break (solid_append_quote hs rest) fuel line _

theorem hex {e c : Char} (he : escapes.lookup e = none) {width : Nat} (hw : 0 < width)
    (hwidth : escapeWidth? e = some width) (hc : c.toNat < 16 ^ width)
    (h : ReadsBack rest written t) :
    ReadsBack rest (['\\', e] ++ (Text.hex width c.toNat).map Char.toUpper ++ written)
      (c :: t) := by
  have hlength : ((Text.hex width c.toNat).map Char.toUpper).length = width := by
    rw [List.length_map, length_hex hw hc]
  refine h.step _ [c] (by simp) fun fuel line place => ⟨line, place + (2 + width), ?_⟩
  have hread := Cursor.doubleFrom_hex he (hlength.symm ▸ hwidth) (ofHex?_hex width c) fuel
    (written ++ '"' :: rest) line place
  rw [hlength] at hread
  rw [List.append_assoc]
  exact hread

/-- An escape stands for its character. -/
theorem escape {c : Char} {e : Text} (he : escape? c = some e) (h : ReadsBack rest written t) :
    ReadsBack rest (e ++ written) (c :: t) := by
  have hletters : (escapeLetters.all fun p => escapes.lookup p.2 == some p.1) = true := by decide
  unfold escape? at he
  simp only at he
  split at he
  · cases he
  · split at he
    · rename_i letter hlookup
      cases he
      have hread := List.all_eq_true.mp hletters _ (mem_of_lookup hlookup)
      exact h.step ['\\', letter] [c] (by simp) fun fuel line _ =>
        ⟨line, _, Cursor.doubleFrom_letter (by simpa using hread) fuel _ line _⟩
    · have hmax : c.toNat < 0x110000 := by
        have hvalid : c.toNat.isValidChar := c.valid
        unfold Nat.isValidChar at hvalid
        omega
      split_ifs at he with h2 h4
      · cases he
        exact h.hex (by decide) (by decide) (by decide) (show c.toNat < 16 ^ 2 by omega)
      · cases he
        exact h.hex (by decide) (by decide) (by decide) (show c.toNat < 16 ^ 4 by omega)
      · cases he
        exact h.hex (by decide) (by decide) (by decide) (show c.toNat < 16 ^ 8 by omega)

end ReadsBack

/-! ### What is written between double quotes -/

theorem escape?_eq_none {c : Char} (h : escape? c = none) :
    0x20 ≤ c.toNat ∧ c.toNat ≤ 0x7E ∧ c ≠ '"' ∧ c ≠ '\\' := by
  by_contra hc
  unfold escape? at h
  simp only [if_neg hc] at h
  split at h
  · cases h
  · split_ifs at h

theorem isSeparator_of_escape? {c : Char} (h : escape? c = none) (hs : c ≠ ' ') :
    isSeparator c = false := by
  obtain ⟨hlow, hhigh, -, -⟩ := escape?_eq_none h
  apply isSeparator_of_isOrdinary _ hs
  · rintro rfl
    exact absurd hlow (by decide)
  · simp [isOrdinary, hlow, hhigh]

/-- An escape begins with a backslash. -/
theorem solid_escape {c : Char} {e : Text} (h : escape? c = some e) (x : Text) :
    Solid (e ++ x) := by
  unfold escape? at h
  simp only at h
  have hbackslash : isSeparator '\\' = false := by decide
  split at h
  · cases h
  · split at h
    · cases h
      exact solid_cons hbackslash _
    · split_ifs at h <;> cases h <;> exact solid_cons hbackslash _

theorem solid_doubleBreak (next x : Text) : Solid (doubleBreak next ++ x) :=
  solid_cons (by decide) _

/-- A text that does not begin with a space is written as one that begins solidly. -/
theorem solid_doubleFrom {t : Text} (h : t.head? ≠ some ' ') (first escaped : Bool) (column : Nat) :
    Solid (doubleFrom first escaped column t) := by
  cases t with
  | nil => exact solid_nil
  | cons c r =>
    have hc : c ≠ ' ' := by simpa using h
    rw [doubleFrom]
    cases he : escape? c with
    | some e =>
      simp only
      split
      · rw [List.append_assoc]
        exact solid_escape he _
      · exact solid_escape he _
    | none =>
      simp only
      split
      · rw [List.append_assoc]
        exact solid_doubleBreak _ _
      · exact solid_cons (isSeparator_of_escape? he hc) _

/-- Behind a break something solid goes on as it is. -/
theorem ReadsBack.doubleBreak_solid {rest next written t : Text} (hn : next.head? ≠ some ' ')
    (hs : Solid written) (h : ReadsBack rest written t) :
    ReadsBack rest (doubleBreak next ++ written) t := by
  rw [doubleBreak, if_neg hn]
  exact h.lineBreak hs

/-- Behind a break a space is kept by a backslash. -/
theorem ReadsBack.doubleBreak_space {rest next written t : Text} (hn : next.head? = some ' ')
    (h : ReadsBack rest written t) :
    ReadsBack rest (doubleBreak next ++ ' ' :: written) (' ' :: t) := by
  rw [doubleBreak, if_pos hn]
  exact h.keptSpace.lineBreak (solid_cons (by decide) _)

/-- **What is written between double quotes is read back.** The induction is on the text. Of
the spaces in front nothing is read before something solid comes, so they may be any
number. -/
theorem readsBack_doubleFrom (rest : Text) : ∀ (t : Text) (first escaped : Bool) (column k : Nat),
    ReadsBack rest (List.replicate k ' ' ++ doubleFrom first escaped column t)
      (List.replicate k ' ' ++ t)
  | [], _, _, _, k => (ReadsBack.nil rest).spaces solid_nil k
  | c :: r, first, escaped, column, k => by
    have ih := fun first escaped column => readsBack_doubleFrom rest r first escaped column 0
    simp only [List.replicate_zero, List.nil_append] at ih
    rw [doubleFrom]
    cases he : escape? c with
    | some e =>
      simp only
      split
      · rw [List.append_assoc]
        refine ReadsBack.spaces (solid_escape he _) (.escape he ?_) k
        by_cases hr : r.head? = some ' '
        · -- The space is the first of its line, so no break comes before it.
          obtain ⟨r', rfl⟩ := List.head?_eq_some_iff.mp hr
          have hfirst : doubleFrom false true 3 (' ' :: r') =
              ' ' :: doubleFrom false false 4 r' := by
            have hnone : escape? ' ' = none := by decide
            rw [doubleFrom, hnone]
            simp [foldColumn]
          have ih' := readsBack_doubleFrom rest r' false false 4 0
          rw [show (doubleBreak (' ' :: r')).length - 2 = 3 from rfl, hfirst]
          exact .doubleBreak_space hr ih'
        · exact .doubleBreak_solid hr (solid_doubleFrom hr _ _ _) (ih ..)
      · exact ReadsBack.spaces (solid_escape he _) (.escape he (ih ..)) k
    | none =>
      obtain ⟨-, -, hquote, hbackslash⟩ := escape?_eq_none he
      simp only
      by_cases hc : c = ' '
      · subst hc
        split
        · rw [List.append_assoc]
          refine ReadsBack.spaces (solid_doubleBreak _ _) (.doubleBreak_space rfl (ih ..)) k
        · -- One more space waits.
          have hmore := readsBack_doubleFrom rest r false false (column + 1) (k + 1)
          rw [List.replicate_succ', List.append_assoc, List.append_assoc] at hmore
          exact hmore
      · have hsolid := isSeparator_of_escape? he hc
        split
        · rw [List.append_assoc]
          refine ReadsBack.spaces (solid_doubleBreak _ _) ?_ k
          exact .doubleBreak_solid (by simpa using hc) (solid_cons hsolid _)
            (.char hsolid hquote hbackslash (ih ..))
        · exact ReadsBack.spaces (solid_cons hsolid _) (.char hsolid hquote hbackslash (ih ..)) k
termination_by t => t.length

theorem Cursor.doubleQuoted_written (rest t : Text) (column line place : Nat) : ∃ line' place',
    doubleQuoted ⟨'"' :: (Handout.doubleFrom true false column t ++ '"' :: rest), line, place⟩ =
      some (t, ⟨rest, line', place'⟩) := by
  have hread := readsBack_doubleFrom rest t true false column 0
  have hfuel : (Handout.doubleFrom true false column t).length <
      ('"' :: (Handout.doubleFrom true false column t ++ '"' :: rest)).length := by
    simp only [List.length_cons, List.length_append]
    omega
  exact hread.read _ line (place + 1) hfuel

end Handout
