/-
# UTF-8

Texts are stored as UTF-8. Reading stops at the first bytes that begin no
character and reports where they stand and what is wrong with them: a byte that
cannot begin a character, a byte that cannot continue one, or the end of the
data inside of one. The reported bytes are the longest front part of a
character that is there.

Key definitions: `Bytes`, `Utf8.encode`, `Utf8.Defect`, `Utf8.decode`.
-/
import Handout.Text.Quoted

namespace Handout

/-- The content of a file. -/
abbrev Bytes := List UInt8

namespace Utf8

/-- The bytes of a text. -/
def encode (t : Text) : Bytes :=
  t.flatMap String.utf8EncodeChar

/-- What is wrong with some bytes. -/
inductive Reason where
  | start
  | continuation
  | ending
deriving Repr, DecidableEq

/-- Bytes that are no character: the position of the first, which it is, how
many there are, and what is wrong. -/
structure Defect where
  position : Nat
  first : UInt8
  length : Nat
  reason : Reason
deriving Repr, DecidableEq

/-- The wording of a reason. -/
def Reason.message : Reason → Text
  | start => "invalid start byte".toList
  | continuation => "invalid continuation byte".toList
  | ending => "unexpected end of data".toList

/-- The wording of a defect. -/
def Defect.message (d : Defect) : Text :=
  "'utf-8' codec can't decode ".toList
    ++ (if d.length = 1 then
          "byte 0x".toList ++ Text.hex 2 d.first.toNat ++ " in position ".toList
            ++ Text.ofNat d.position
        else
          "bytes in position ".toList ++ Text.ofNat d.position ++ ['-']
            ++ Text.ofNat (d.position + d.length - 1))
    ++ ": ".toList ++ d.reason.message

/-- Can the byte continue a character? -/
def isTail (b : UInt8) : Bool :=
  0x80 ≤ b && b ≤ 0xBF

/-- Can the byte follow the first byte of a character of three bytes? Short
forms of smaller characters and surrogates are excluded. -/
def isSecondOfThree (first b : UInt8) : Bool :=
  isTail b && (first != 0xE0 || 0xA0 ≤ b) && (first != 0xED || b < 0xA0)

/-- Can the byte follow the first byte of a character of four bytes? Short
forms of smaller characters and codes beyond the last are excluded. -/
def isSecondOfFour (first b : UInt8) : Bool :=
  isTail b && (first != 0xF0 || 0x90 ≤ b) && (first != 0xF4 || b < 0x90)

/-- The character with the given leading bits and following bytes. -/
def character (lead : Nat) (tail : List UInt8) : Char :=
  Char.ofNat (tail.foldl (fun n b => n * 64 + (b.toNat - 0x80)) lead)

/-- Reads bytes, the first of which stands at `position`. -/
def decodeFrom (position : Nat) : Bytes → Except Defect Text
  | [] => .ok []
  | a :: r =>
    if a < 0x80 then (Char.ofNat a.toNat :: ·) <$> decodeFrom (position + 1) r
    else if a < 0xC2 then .error ⟨position, a, 1, .start⟩
    else if a < 0xE0 then
      match r with
      | [] => .error ⟨position, a, 1, .ending⟩
      | b :: r =>
        if isTail b then (character (a.toNat - 0xC0) [b] :: ·) <$> decodeFrom (position + 2) r
        else .error ⟨position, a, 1, .continuation⟩
    else if a < 0xF0 then
      match r with
      | [] => .error ⟨position, a, 1, .ending⟩
      | b :: r =>
        if !isSecondOfThree a b then .error ⟨position, a, 1, .continuation⟩
        else
          match r with
          | [] => .error ⟨position, a, 2, .ending⟩
          | c :: r =>
            if isTail c then
              (character (a.toNat - 0xE0) [b, c] :: ·) <$> decodeFrom (position + 3) r
            else .error ⟨position, a, 2, .continuation⟩
    else if a < 0xF5 then
      match r with
      | [] => .error ⟨position, a, 1, .ending⟩
      | b :: r =>
        if !isSecondOfFour a b then .error ⟨position, a, 1, .continuation⟩
        else
          match r with
          | [] => .error ⟨position, a, 2, .ending⟩
          | c :: r =>
            if !isTail c then .error ⟨position, a, 2, .continuation⟩
            else
              match r with
              | [] => .error ⟨position, a, 3, .ending⟩
              | d :: r =>
                if isTail d then
                  (character (a.toNat - 0xF0) [b, c, d] :: ·) <$> decodeFrom (position + 4) r
                else .error ⟨position, a, 3, .continuation⟩
    else .error ⟨position, a, 1, .start⟩

/-- The text in some bytes. -/
def decode (bytes : Bytes) : Except Defect Text :=
  decodeFrom 0 bytes

end Utf8
end Handout
