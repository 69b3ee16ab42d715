/-
# Texts come back from their bytes

A character is one to four bytes. The first tells by its range how many there are, and each of
the others holds six bits of the code (`tail`). The code of a longer character is too large for
fewer bytes and is no surrogate, so the second byte is in the range that the reader asks for. So
each character is read back as it was written, whatever follows it (`decodeFrom_character`), and
so is a text, by induction over it (`decode_encode`).

Key definitions: `Utf8.tail`.
Key theorems: `Utf8.decodeFrom_character`, `Utf8.decode_encode`.
-/
import Handout.Text.Utf8

namespace Handout
namespace Utf8

/-! ### Bytes -/

/-- The bound as a number, for `omega`. -/
theorem toNat_ofNat {n : Nat} (h : n < 256) : (UInt8.ofNat n).toNat = n :=
  UInt8.toNat_ofNat_of_lt' h

/-- A byte that holds the last six bits of a number. -/
def tail (n : Nat) : UInt8 := UInt8.ofNat (n % 64 + 128)

theorem toNat_tail (n : Nat) : (tail n).toNat = n % 64 + 128 :=
  toNat_ofNat (by omega)

theorem isTail_tail (n : Nat) : isTail (tail n) = true := by
  simp only [isTail, UInt8.le_iff_toNat_le, toNat_tail, UInt8.reduceToNat, Bool.and_eq_true,
    decide_eq_true_eq]
  omega

/-- The code that the following bytes complete. -/
theorem character_tails (lead : Nat) (ns : List Nat) :
    character lead (ns.map tail) = Char.ofNat (ns.foldl (fun n b => n * 64 + b % 64) lead) := by
  rw [character, List.foldl_map]
  simp only [toNat_tail, Nat.add_sub_cancel]

/-! ### One character after another -/

section Characters

variable {v : Nat} (position : Nat) (rest : Bytes)

theorem decodeFrom_one (hv : v < 0x80) :
    decodeFrom position (UInt8.ofNat v :: rest) =
      (Char.ofNat v :: ·) <$> decodeFrom (position + 1) rest := by
  have ha : (UInt8.ofNat v).toNat = v := toNat_ofNat (by omega)
  have h1 : UInt8.ofNat v < 0x80 := by
    simp only [UInt8.lt_iff_toNat_lt, ha, UInt8.reduceToNat]
    exact hv
  rw [decodeFrom.eq_def]
  simp only [if_pos h1, ha]

theorem decodeFrom_two (hlow : 0x80 ≤ v) (hhigh : v < 0x800) :
    decodeFrom position (UInt8.ofNat (v / 64 % 32 + 192) :: tail v :: rest) =
      (Char.ofNat v :: ·) <$> decodeFrom (position + 2) rest := by
  have ha : (UInt8.ofNat (v / 64 % 32 + 192)).toNat = v / 64 % 32 + 192 :=
    toNat_ofNat (by omega)
  generalize UInt8.ofNat (v / 64 % 32 + 192) = a at ha ⊢
  have hrange : ¬ a < 0x80 ∧ ¬ a < 0xC2 ∧ a < 0xE0 := by
    simp only [UInt8.lt_iff_toNat_lt, ha, UInt8.reduceToNat]
    omega
  have hcode : character (a.toNat - 0xC0) [tail v] = Char.ofNat v :=
    (character_tails _ [v]).trans (congrArg Char.ofNat (by simp only [List.foldl]; omega))
  rw [decodeFrom.eq_def]
  simp only [hrange, if_false, if_true, isTail_tail, hcode]

theorem decodeFrom_three (hlow : 0x800 ≤ v) (hhigh : v < 0x10000)
    (hvalid : v < 0xD800 ∨ 0xDFFF < v) :
    decodeFrom position (UInt8.ofNat (v / 4096 % 16 + 224) :: tail (v / 64) :: tail v :: rest) =
      (Char.ofNat v :: ·) <$> decodeFrom (position + 3) rest := by
  have ha : (UInt8.ofNat (v / 4096 % 16 + 224)).toNat = v / 4096 % 16 + 224 :=
    toNat_ofNat (by omega)
  generalize UInt8.ofNat (v / 4096 % 16 + 224) = a at ha ⊢
  have hrange : ¬ a < 0x80 ∧ ¬ a < 0xC2 ∧ ¬ a < 0xE0 ∧ a < 0xF0 := by
    simp only [UInt8.lt_iff_toNat_lt, ha, UInt8.reduceToNat]
    omega
  -- a code below 0x800 would fit two bytes, and one from 0xD800 to 0xDFFF is a surrogate
  have hsecond : isSecondOfThree a (tail (v / 64)) = true := by
    simp only [isSecondOfThree, isTail_tail, Bool.true_and, Bool.and_eq_true, Bool.or_eq_true,
      bne_iff_ne, ne_eq, decide_eq_true_eq, ← UInt8.toNat_inj, UInt8.le_iff_toNat_le,
      UInt8.lt_iff_toNat_lt, toNat_tail, ha, UInt8.reduceToNat]
    omega
  have hcode : character (a.toNat - 0xE0) [tail (v / 64), tail v] = Char.ofNat v :=
    (character_tails _ [v / 64, v]).trans (congrArg Char.ofNat (by simp only [List.foldl]; omega))
  rw [decodeFrom.eq_def]
  simp only [hrange, if_false, if_true, hsecond, isTail_tail, hcode, Bool.not_true,
    Bool.false_eq_true]

theorem decodeFrom_four (hlow : 0x10000 ≤ v) (hvalid : v < 0x110000) :
    decodeFrom position (UInt8.ofNat (v / 262144 % 8 + 240) :: tail (v / 4096) ::
        tail (v / 64) :: tail v :: rest) =
      (Char.ofNat v :: ·) <$> decodeFrom (position + 4) rest := by
  have ha : (UInt8.ofNat (v / 262144 % 8 + 240)).toNat = v / 262144 % 8 + 240 :=
    toNat_ofNat (by omega)
  generalize UInt8.ofNat (v / 262144 % 8 + 240) = a at ha ⊢
  have hrange : ¬ a < 0x80 ∧ ¬ a < 0xC2 ∧ ¬ a < 0xE0 ∧ ¬ a < 0xF0 ∧ a < 0xF5 := by
    simp only [UInt8.lt_iff_toNat_lt, ha, UInt8.reduceToNat]
    omega
  -- a code below 0x10000 would fit three bytes, and there is none from 0x110000 on
  have hsecond : isSecondOfFour a (tail (v / 4096)) = true := by
    simp only [isSecondOfFour, isTail_tail, Bool.true_and, Bool.and_eq_true, Bool.or_eq_true,
      bne_iff_ne, ne_eq, decide_eq_true_eq, ← UInt8.toNat_inj, UInt8.le_iff_toNat_le,
      UInt8.lt_iff_toNat_lt, toNat_tail, ha, UInt8.reduceToNat]
    omega
  have hcode : character (a.toNat - 0xF0) [tail (v / 4096), tail (v / 64), tail v] =
      Char.ofNat v :=
    (character_tails _ [v / 4096, v / 64, v]).trans
      (congrArg Char.ofNat (by simp only [List.foldl]; omega))
  rw [decodeFrom.eq_def]
  simp only [hrange, if_false, if_true, hsecond, isTail_tail, hcode, Bool.not_true,
    Bool.false_eq_true]

/-- **A character is read back**, whatever follows it. -/
theorem decodeFrom_character (c : Char) : ∃ next,
    decodeFrom position (String.utf8EncodeChar c ++ rest) =
      (c :: ·) <$> decodeFrom next rest := by
  have hc : Char.ofNat c.val.toNat = c := Char.ofNat_toNat c
  have hvalid : c.val.toNat < 0xD800 ∨ 0xDFFF < c.val.toNat ∧ c.val.toNat < 0x110000 := c.valid
  rw [String.utf8EncodeChar]
  generalize c.val.toNat = v at hc hvalid
  by_cases h1 : v ≤ 127
  · rw [if_pos h1]
    exact ⟨_, hc ▸ decodeFrom_one position rest (by omega)⟩
  · rw [if_neg h1]
    by_cases h2 : v ≤ 2047
    · rw [if_pos h2]
      exact ⟨_, hc ▸ decodeFrom_two position rest (by omega) (by omega)⟩
    · rw [if_neg h2]
      by_cases h3 : v ≤ 65535
      · rw [if_pos h3]
        exact ⟨_, hc ▸ decodeFrom_three position rest (by omega) (by omega) (by omega)⟩
      · rw [if_neg h3]
        exact ⟨_, hc ▸ decodeFrom_four position rest (by omega) (by omega)⟩

end Characters

/-! ### Texts -/

theorem decodeFrom_encode : ∀ (t : Text) (position : Nat), decodeFrom position (encode t) = .ok t
  | [], _ => rfl
  | c :: r, position => by
    obtain ⟨next, hread⟩ := decodeFrom_character position (encode r) c
    have hencode : encode (c :: r) = String.utf8EncodeChar c ++ encode r := List.flatMap_cons
    rw [hencode, hread, decodeFrom_encode r next]
    rfl

/-- **Every text comes back from its bytes.** -/
theorem decode_encode (t : Text) : decode (encode t) = .ok t :=
  decodeFrom_encode t 0

end Utf8
end Handout
