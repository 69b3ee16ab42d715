/-
# Which texts denote a task number

A text denotes a number if the text of the number stands in it and no digit stands before
or behind, and every level of the number is one digit (`Denotes`). Reading finds just
these numbers (`parse?_eq_some_iff`).

A search for numbers passes what holds no digit (`occurrencesFrom_passes`), begins at the
first digit, because a digit alone is a number, and takes the text of a number
(`eq_text_of_read?`). So there is exactly one find if and only if no digit is left behind it
(`occurrencesFrom_eq_nil_iff`).

A level of ten or more is written with two digits side by side. The text of such a number
begins and ends with a digit, so it could only denote a number that is written alike; but
numbers are told apart by their texts (`text_injective`).

Key definitions: `Digitless`, `TaskNumber.Denotes`.
Key theorems: `TaskNumber.parse?_eq_some_iff`, `TaskNumber.text_injective`,
`TaskNumber.parse_denoted`.
-/
import Handout.Proofs.Reading
import Handout.Task.Cutoff
import Mathlib.Tactic.Set

namespace Handout

/-- No character is one of the ten digits. -/
def Digitless (t : Text) : Prop := ∀ c ∈ t, ¬ ('0' ≤ c ∧ c ≤ '9')

namespace TaskNumber

/-- The number has one digit a level, and its text stands in `t` among characters that are
no digits. -/
def Denotes (t : Text) (n : TaskNumber) : Prop :=
  (∀ l ∈ n.levels, l ≤ 9) ∧ ∃ u v, Digitless u ∧ Digitless v ∧ t = u ++ n.text ++ v

/-! ### Digits -/

theorem digit?_eq_none_iff {c : Char} : digit? c = none ↔ ¬ ('0' ≤ c ∧ c ≤ '9') := by
  unfold digit?
  split_ifs with h <;> simp [h]

theorem digitless_iff {t : Text} : Digitless t ↔ ∀ c ∈ t, digit? c = none :=
  forall₂_congr fun _ _ => digit?_eq_none_iff.symm

/-- A level below ten is written as its digit. -/
theorem exists_digit {a : Nat} (h : a ≤ 9) : ∃ c, Text.ofNat a = [c] ∧ digit? c = some a := by
  refine ⟨Nat.digitChar a, Nat.toDigits_of_lt_base (by omega), ?_⟩
  have : ∀ a < 10, digit? (Nat.digitChar a) = some a := by decide
  exact this a (by omega)

/-- A digit is the text of its value. -/
theorem ofNat_of_digit? {c : Char} {a : Nat} (h : digit? c = some a) : Text.ofNat a = [c] := by
  have ha : a ≤ 9 := digit?_le h
  unfold digit? at h
  split_ifs at h with hc
  rw [Option.some.injEq] at h
  have hzero : '0'.toNat ≤ c.toNat := hc.1
  have hchar : Nat.digitChar a = c := by
    apply Char.toNat_inj.mp
    rw [Nat.toNat_digitChar_of_lt_ten (by omega)]
    have : '0'.toNat = 48 := by decide
    omega
  rw [Text.ofNat, Nat.toDigits_of_lt_base (by omega), hchar]

theorem eq_of_dotDigit? {t r : Text} {b : Nat} (h : dotDigit? t = some (b, r)) :
    t = '.' :: (Text.ofNat b ++ r) := by
  unfold dotDigit? at h
  split at h
  · obtain ⟨m, hm, he⟩ := Option.map_eq_some_iff.mp h
    obtain ⟨rfl, rfl⟩ := Prod.mk.inj he
    rw [ofNat_of_digit? hm]
    rfl
  · cases h

theorem dotDigit?_of_digitless {t : Text} (h : Digitless t) : dotDigit? t = none := by
  unfold dotDigit?
  split
  · rename_i c r
    rw [digitless_iff.mp h c (by simp)]
    rfl
  · rfl

/-! ### One number at the front of a text -/

/-- What is read is the text of a number. -/
theorem eq_text_of_read? {t : Text} {n : TaskNumber} {length : Nat}
    (h : read? t = some (n, length)) : ∃ v, t = n.text ++ v ∧ length = n.text.length := by
  unfold read? at h
  split at h
  · cases h
  · rename_i c r
    split at h
    · cases h
    · rename_i a ha
      have ha := ofNat_of_digit? ha
      split at h
      · cases h
        exact ⟨r, by simp [text, levels, Text.joinWith, ha]⟩
      · rename_i b r' hb
        have hlen : (Text.ofNat b).length = 1 := by
          obtain ⟨c', hc', -⟩ := exists_digit (dotDigit?_le hb)
          rw [hc', List.length_singleton]
        have hb := eq_of_dotDigit? hb
        split at h
        · cases h
          exact ⟨r', by simp [text, levels, Text.joinWith, ha, hb, hlen]⟩
        · rename_i d r'' hd
          have hlen' : (Text.ofNat d).length = 1 := by
            obtain ⟨c', hc', -⟩ := exists_digit (dotDigit?_le hd)
            rw [hc', List.length_singleton]
          have hd := eq_of_dotDigit? hd
          cases h
          exact ⟨r'', by simp [text, levels, Text.joinWith, ha, hb, hd, hlen, hlen']⟩

/-- The text of a number is read to its end if no digit follows. -/
theorem read?_text_append {n : TaskNumber} (h : ∀ l ∈ n.levels, l ≤ 9) {v : Text}
    (hv : Digitless v) : read? (n.text ++ v) = some (n, n.text.length) := by
  have hnone := dotDigit?_of_digitless hv
  cases n with
  | one a =>
    obtain ⟨c, hc, hd⟩ := exists_digit (h a (by simp [levels]))
    simp [text, levels, Text.joinWith, hc, read?, hd, hnone]
  | two a b =>
    obtain ⟨c, hc, hd⟩ := exists_digit (h a (by simp [levels]))
    obtain ⟨c', hc', hd'⟩ := exists_digit (h b (by simp [levels]))
    have hsecond : dotDigit? ('.' :: c' :: v) = some (b, v) := by rw [dotDigit?, hd']; rfl
    simp [text, levels, Text.joinWith, hc, hc', read?, hd, hsecond, hnone]
  | three a b c =>
    obtain ⟨x, hx, hdx⟩ := exists_digit (h a (by simp [levels]))
    obtain ⟨y, hy, hdy⟩ := exists_digit (h b (by simp [levels]))
    obtain ⟨z, hz, hdz⟩ := exists_digit (h c (by simp [levels]))
    simp [text, levels, Text.joinWith, hx, hy, hz, read?, hdx, hdy, hdz, dotDigit?]

/-- A number is read wherever a digit stands. -/
theorem read?_eq_none_iff {t : Text} :
    read? t = none ↔ ∀ c, t.head? = some c → digit? c = none := by
  unfold read?
  cases t with
  | nil => simp
  | cons c r =>
    cases hc : digit? c with
    | none => simp [hc]
    | some a =>
      simp only [List.head?_cons, Option.some.injEq, forall_eq', hc, reduceCtorEq, iff_false]
      split
      · simp
      · split <;> simp

/-! ### The search for numbers -/

/-- A search for numbers does not look at the character before. -/
theorem occurrencesFrom_before (start covered : Nat) (before before' : Option Char) (t : Text) :
    Pattern.occurrencesFrom (fun _ => read?) start covered before t =
      Pattern.occurrencesFrom (fun _ => read?) start covered before' t := by
  cases t with
  | nil => rfl
  | cons c r => cases covered <;> rfl

/-- What holds no digit is passed. -/
theorem occurrencesFrom_passes : ∀ {u : Text}, Digitless u → ∀ (start : Nat) (t : Text),
    Pattern.occurrencesFrom (fun _ => read?) start 0 none (u ++ t) =
      Pattern.occurrencesFrom (fun _ => read?) (start + u.length) 0 none t
  | [], _, _, _ => rfl
  | c :: u, h, start, t => by
    have hnone : read? (c :: (u ++ t)) = none := by
      apply read?_eq_none_iff.mpr
      intro d hd
      rw [List.head?_cons, Option.some.injEq] at hd
      exact hd ▸ digitless_iff.mp h c (List.mem_cons_self ..)
    have ih := occurrencesFrom_passes (fun d hd => h d (List.mem_cons_of_mem _ hd)) (start + 1) t
    rw [List.cons_append, Pattern.occurrencesFrom_of_none hnone, occurrencesFrom_before _ _ _ none,
      ih, List.length_cons, Nat.add_assoc, Nat.add_comm 1]

/-- Nothing is found if no digit is left behind the covered characters. -/
theorem occurrencesFrom_eq_nil_iff {start covered : Nat} {before : Option Char} {t : Text} :
    Pattern.occurrencesFrom (fun _ => read?) start covered before t = [] ↔
      Digitless (t.drop covered) := by
  rw [digitless_iff]
  constructor
  · intro h c hc
    by_contra hd
    obtain ⟨i, hi, rfl⟩ := List.mem_iff_getElem.mp hc
    have hread : read? (t.drop (covered + i)) ≠ none := by
      rw [Ne, read?_eq_none_iff]
      intro hall
      exact hd (hall _ (by rw [← List.drop_drop, List.head?_drop, List.getElem?_eq_getElem hi]))
    obtain ⟨⟨n, k⟩, hn⟩ := Option.ne_none_iff_exists'.mp hread
    rw [← Pattern.readAt_const (show read? [] = none from rfl) t before] at hn
    obtain ⟨x, hx, -⟩ := Pattern.exists_mem_occurrencesFrom start hn (Nat.le_add_right ..)
    rw [h] at hx
    exact List.not_mem_nil hx
  · intro h
    rw [List.eq_nil_iff_forall_not_mem]
    intro x hx
    obtain ⟨i, hi, -, hr⟩ := Pattern.exists_of_mem_occurrencesFrom hx
    rw [Pattern.readAt_const rfl] at hr
    have hnone : read? (t.drop i) = none := by
      apply read?_eq_none_iff.mpr
      intro c hc
      apply h c
      obtain ⟨k, rfl⟩ := Nat.exists_eq_add_of_le hi
      rw [← List.drop_drop] at hc
      exact List.mem_of_mem_drop (List.mem_of_mem_head? hc)
    rw [hr] at hnone
    cases hnone

/-- The search begins with what is read at the first digit. -/
theorem occurrences_of_read? {u t : Text} {n : TaskNumber} {k : Nat} (hu : Digitless u)
    (h : read? t = some (n, k)) : ∃ rest, Pattern.occurrences (fun _ => read?) (u ++ t) =
      ⟨u.length, k, n⟩ :: rest ∧ (rest = [] ↔ Digitless (t.drop k)) := by
  cases t with
  | nil => cases h
  | cons c r =>
    have hpos : 0 < k := by
      obtain ⟨v, hv, rfl⟩ := eq_text_of_read? h
      apply List.length_pos_iff.mpr
      intro h0
      rw [h0] at h
      rcases n with a | ⟨a, b⟩ | ⟨a, b, d⟩ <;>
        simp [text, levels, Text.joinWith, Text.ofNat] at h0
    obtain ⟨k, rfl⟩ := Nat.exists_eq_succ_of_ne_zero (Nat.ne_of_gt hpos)
    refine ⟨Pattern.occurrencesFrom (fun _ => read?) (u.length + 1) k (some c) r, ?_, ?_⟩
    · rw [Pattern.occurrences, occurrencesFrom_passes hu, Nat.zero_add,
        Pattern.occurrencesFrom_of_some h]
      rfl
    · exact occurrencesFrom_eq_nil_iff

/-- **A number is read from just the texts that denote it.** -/
theorem parse?_eq_some_iff {t : Text} {n : TaskNumber} : parse? t = some n ↔ Denotes t n := by
  constructor
  · intro h
    refine ⟨parse?_levels h, ?_⟩
    set u := t.takeWhile fun c => (digit? c).isNone with hudef
    set r := t.dropWhile fun c => (digit? c).isNone with hrdef
    have ht : t = u ++ r := (List.takeWhile_append_dropWhile ..).symm
    have hu : Digitless u := by
      apply digitless_iff.mpr
      intro c hc
      have hnone := List.mem_takeWhile_imp (p := fun c => (digit? c).isNone) hc
      exact Option.isNone_iff_eq_none.mp hnone
    cases hread : read? r with
    | none =>
      -- Without a digit there is no find.
      have hr : r = [] := by
        by_contra h0
        obtain ⟨c, r', hcr⟩ := List.exists_cons_of_ne_nil h0
        have hdigit := List.head?_dropWhile_not (fun c => (digit? c).isNone) t
        rw [← hrdef, hcr, List.head?_cons] at hdigit
        have hnone := read?_eq_none_iff.mp hread c (by rw [hcr, List.head?_cons])
        simp [hnone] at hdigit
      have hnil : Pattern.occurrences (fun _ => read?) t = [] := by
        apply occurrencesFrom_eq_nil_iff.mpr
        rw [List.drop_zero, ht, hr, List.append_nil]
        exact hu
      rw [parse?, hnil] at h
      cases h
    | some x =>
      obtain ⟨m, k⟩ := x
      obtain ⟨rest, hocc, hrest⟩ := occurrences_of_read? hu hread
      rw [parse?, ht, hocc] at h
      cases rest with
      | cons y rest => cases h
      | nil =>
        cases h
        obtain ⟨v, hv, rfl⟩ := eq_text_of_read? hread
        refine ⟨u, v, hu, ?_, by rw [ht, hv, List.append_assoc]⟩
        have hdrop := hrest.mp rfl
        rwa [hv, List.drop_left] at hdrop
  · rintro ⟨hn, u, v, hu, hv, rfl⟩
    obtain ⟨rest, hocc, hrest⟩ := occurrences_of_read? hu (read?_text_append hn hv)
    have hnil : rest = [] := by
      apply hrest.mpr
      rwa [List.drop_left]
    rw [parse?, List.append_assoc, hocc, hnil]

/-- A number with one digit a level is read from its text. -/
theorem parse?_text {n : TaskNumber} (h : ∀ l ∈ n.levels, l ≤ 9) : parse? n.text = some n :=
  parse?_eq_some_iff.mpr ⟨h, [], [], by simp [Digitless], by simp [Digitless], by simp⟩

/-! ### Numbers and their texts -/

theorem levels_ne_nil (n : TaskNumber) : n.levels ≠ [] := by cases n <;> simp [levels]

theorem levels_injective {n m : TaskNumber} (h : n.levels = m.levels) : n = m := by
  cases n <;> cases m <;> simp_all [levels]

theorem ofNat_injective {a b : Nat} (h : Text.ofNat a = Text.ofNat b) : a = b := by
  have hvalue := congrArg (fun digits => Nat.ofDigitChars 10 digits 0) h
  simpa [Text.ofNat, Nat.ofDigitChars_toDigits] using hvalue

/-- The text of a level consists of digits. -/
theorem digit_of_mem_ofNat {a : Nat} {c : Char} (h : c ∈ Text.ofNat a) : '0' ≤ c ∧ c ≤ '9' := by
  have hdigit := Nat.isDigit_of_mem_toDigits (by decide) (by decide) h
  rw [Char.isDigit, Bool.and_eq_true, decide_eq_true_eq, decide_eq_true_eq] at hdigit
  exact hdigit

/-- **Numbers are told apart by their texts.** -/
theorem text_injective {n m : TaskNumber} (h : n.text = m.text) : n = m := by
  have hdot : ∀ k : TaskNumber, ∀ t ∈ k.levels.map Text.ofNat, '.' ∉ t := by
    intro k t ht hm
    obtain ⟨a, -, rfl⟩ := List.mem_map.mp ht
    exact absurd (digit_of_mem_ofNat hm) (by decide)
  have hne : ∀ k : TaskNumber, k.levels.map Text.ofNat ≠ [] := by
    intro k h0
    exact k.levels_ne_nil (List.map_eq_nil_iff.mp h0)
  have hmap : n.levels.map Text.ofNat = m.levels.map Text.ofNat := by
    rw [← Text.splitAt_joinWith (hne n) (hdot n), ← Text.splitAt_joinWith (hne m) (hdot m)]
    exact congrArg (Text.splitAt '.') h
  apply levels_injective
  exact List.map_injective_iff.mpr (fun _ _ => ofNat_injective) hmap

/-- The text of a number begins and ends with a digit. -/
theorem text_ends (n : TaskNumber) : (∃ c, n.text.head? = some c ∧ '0' ≤ c ∧ c ≤ '9') ∧
    ∃ c, n.text.getLast? = some c ∧ '0' ≤ c ∧ c ≤ '9' := by
  have hfirst : ∀ a, ∃ c, (Text.ofNat a).head? = some c ∧ '0' ≤ c ∧ c ≤ '9' := by
    intro a
    obtain ⟨c, r, hc⟩ := List.exists_cons_of_ne_nil (Text.ofNat_ne_nil a)
    exact ⟨c, by rw [hc, List.head?_cons], digit_of_mem_ofNat (hc ▸ List.mem_cons_self ..)⟩
  have hlast : ∀ a, ∃ c, (Text.ofNat a).getLast? = some c ∧ '0' ≤ c ∧ c ≤ '9' := by
    intro a
    have hc := List.getLast?_eq_some_getLast (Text.ofNat_ne_nil a)
    exact ⟨_, hc, digit_of_mem_ofNat (List.mem_of_getLast? hc)⟩
  constructor
  · obtain ⟨a, r, har⟩ := List.exists_cons_of_ne_nil n.levels_ne_nil
    obtain ⟨c, hc, hdigit⟩ := hfirst a
    refine ⟨c, ?_, hdigit⟩
    rw [text, har, List.map_cons]
    exact Text.head?_joinWith_cons hc _ _
  · obtain ⟨c, hc, hdigit⟩ := hlast (n.levels.getLast n.levels_ne_nil)
    refine ⟨c, ?_, hdigit⟩
    have hmap : (n.levels.map Text.ofNat).getLast? =
        some (Text.ofNat (n.levels.getLast n.levels_ne_nil)) := by
      rw [List.getLast?_map, List.getLast?_eq_some_getLast n.levels_ne_nil]
      rfl
    exact Text.getLast?_joinWith hmap hc

/-- What the text of a number denotes is that number. -/
theorem eq_of_denotes_text {n m : TaskNumber} (h : Denotes n.text m) : n = m := by
  obtain ⟨-, u, v, hu, hv, ht⟩ := h
  obtain ⟨⟨c, hc, hdigit⟩, d, hd, hdigit'⟩ := n.text_ends
  have hu0 : u = [] := by
    by_contra h0
    rw [ht, List.append_assoc, List.head?_append_of_ne_nil _ h0] at hc
    exact hu c (List.mem_of_mem_head? hc) hdigit
  have hv0 : v = [] := by
    by_contra h0
    rw [ht, List.getLast?_append_of_ne_nil _ h0] at hd
    exact hv d (List.mem_of_getLast? hd) hdigit'
  apply text_injective
  rw [ht, hu0, hv0, List.append_nil, List.nil_append]

theorem strip_text_ne_nil (n : TaskNumber) : n.text.strip ≠ [] := by
  obtain ⟨⟨c, hc, hdigit⟩, -⟩ := n.text_ends
  intro h0
  obtain ⟨w, v, hw, hv, ht⟩ := Text.exists_strip n.text
  have hblank : isBlank c = true := by
    rw [h0, List.append_nil] at ht
    exact (hw.append hv) c (ht ▸ List.mem_of_mem_head? hc)
  have hlow : 48 ≤ c.toNat := hdigit.1
  have hhigh : c.toNat ≤ 57 := hdigit.2
  simp only [isBlank, Bool.or_eq_true, Bool.and_eq_true, decide_eq_true_eq, beq_iff_eq] at hblank
  omega

/-- **Reading a number inverts writing it and accepts nothing ambiguous.** A text is read
as a number exactly if every level of it is one digit and its text stands in the given one
without a digit before or behind; if there is no such number the text is refused. So the
text of a number is read as that number if its levels are single digits, and refused if one
of them is ten or more. -/
theorem parse_denoted :
    (∀ (t : Text) (n : TaskNumber), parse? t = some n ↔ Denotes t n) ∧
    (∀ t : Text, (¬ ∃ n, Denotes t n) → parse? t = none ∧
      (t.strip ≠ [] → readTask (some t) = .error (.number t))) ∧
    (∀ n : TaskNumber, (∀ l ∈ n.levels, l ≤ 9) →
      parse? n.text = some n ∧ readTask (some n.text) = .ok (some n)) ∧
    ∀ n : TaskNumber, (∃ l ∈ n.levels, 10 ≤ l) →
      parse? n.text = none ∧ readTask (some n.text) = .error (.number n.text) := by
  have hrefused : ∀ t, (¬ ∃ n, Denotes t n) → parse? t = none ∧
      (t.strip ≠ [] → readTask (some t) = .error (.number t)) := by
    intro t h
    have hnone : parse? t = none := by
      apply Option.eq_none_iff_forall_ne_some.mpr
      intro n hn
      exact h ⟨n, parse?_eq_some_iff.mp hn⟩
    refine ⟨hnone, fun h0 => ?_⟩
    rw [readTask, if_neg h0, hnone]
  refine ⟨fun t n => parse?_eq_some_iff, hrefused, ?_, ?_⟩
  · intro n h
    refine ⟨parse?_text h, ?_⟩
    rw [readTask, if_neg n.strip_text_ne_nil, parse?_text h]
  · rintro n ⟨l, hl, hten⟩
    have hno : ¬ ∃ m, Denotes n.text m := by
      rintro ⟨m, hm⟩
      have hle := hm.1 l (eq_of_denotes_text hm ▸ hl)
      omega
    exact ⟨(hrefused _ hno).1, (hrefused _ hno).2 n.strip_text_ne_nil⟩

theorem parse_denoted_surrounded :
    parse? "Part 2.3.\n".toList = some (two 2 3) ∧
    parse? "1.2.3.4".toList = none ∧
    parse? (three 1 0 9).text = some (three 1 0 9) ∧
    readTask (some (two 1 12).text) = .error (.number (two 1 12).text) := by
  obtain ⟨hiff, hrefused, hsingle, hten⟩ := parse_denoted
  have hfront : Digitless "Part ".toList := by simp [Digitless]
  have hbehind : Digitless ".\n".toList := by simp [Digitless]
  have hno : ¬ ∃ n, Denotes "1.2.3.4".toList n := by
    rintro ⟨n, hn⟩
    have hnone : parse? "1.2.3.4".toList = none := by decide
    rw [(hiff _ n).mpr hn] at hnone
    cases hnone
  exact ⟨(hiff _ _).mpr ⟨by decide, _, _, hfront, hbehind, by decide⟩, (hrefused _ hno).1,
    (hsingle _ (by decide)).1, (hten _ ⟨12, by decide, by decide⟩).2⟩

end TaskNumber
end Handout
