/-
# Numbers with 53 binary digits

A number of a settings file that is written with a point is kept as the nearest
number with a mantissa of 53 binary digits, a tie going to the even mantissa.
All arithmetic is exact arithmetic of natural numbers.

Key definitions: `Binary64`, `roundQuotient`, `Binary64.ofQuotient`.
-/
namespace Handout

/-- A sign with a mantissa and a binary exponent, an infinity, or no number. -/
inductive Binary64 where
  | finite (negative : Bool) (mantissa : Nat) (exponent : Int)
  | infinity (negative : Bool)
  | nan
deriving Repr, DecidableEq

/-- The nearest natural number to a quotient, the even one at a tie. -/
def roundQuotient (n d : Nat) : Nat :=
  let q := n / d
  let r := n % d
  if 2 * r < d then q else if d < 2 * r then q + 1 else if q % 2 = 0 then q else q + 1

/-- The quotient `n / d` divided by a power of two, as numerator and
denominator. -/
def scaleDown (n d : Nat) (exponent : Int) : Nat × Nat :=
  match exponent with
  | .ofNat k => (n, d * Nat.pow 2 k)
  | .negSucc k => (n * Nat.pow 2 (k + 1), d)

/-- The largest `k` with `2 ^ k ≤ n / d`. -/
def binaryOrder (n d : Nat) : Int :=
  let k : Int := (Nat.log2 n : Int) - (Nat.log2 d : Int)
  let s := scaleDown n d k
  if s.1 < s.2 then k - 1 else k

namespace Binary64

/-- The nearest number to the quotient `n / d` with a sign. -/
def ofQuotient (negative : Bool) (n d : Nat) : Binary64 :=
  if n = 0 then finite negative 0 (-1074)
  else
    let e := max (-1074) (binaryOrder n d - 52)
    let s := scaleDown n d e
    let m := roundQuotient s.1 s.2
    let r := if m = Nat.pow 2 53 then (Nat.pow 2 52, e + 1) else (m, e)
    if 971 < r.2 then infinity negative else finite negative r.1 r.2

/-- Is it zero? -/
def isZero : Binary64 → Bool
  | finite _ m _ => m == 0
  | _ => false

end Binary64
end Handout
