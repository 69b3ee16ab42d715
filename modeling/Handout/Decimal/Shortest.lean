/-
# The shortest decimal of a number

A number with 53 binary digits is written with the fewest decimal digits that
read back as the same number; of several such decimals the nearest is taken.
Seventeen digits are always enough.

Numbers from a ten-thousandth up to below ten quadrillions are written
positionally with a digit on both sides of the point, others with an exponent
of at least two digits.

Key definitions: `shortestDigits`, `Binary64.text`.
-/
import Handout.Decimal.Binary64
import Handout.Text.Basic

namespace Handout

/-- The quotient `n / d` times a power of ten, as numerator and denominator. -/
def scaleTen (n d : Nat) (exponent : Int) : Nat × Nat :=
  match exponent with
  | .ofNat k => (n * Nat.pow 10 k, d)
  | .negSucc k => (n, d * Nat.pow 10 (k + 1))

/-- The number of zeros after the point before the first digit of `n / d`, as
far as `fuel` reaches. -/
def leadingZeros (n d : Nat) : (fuel : Nat) → Nat
  | 0 => 0
  | fuel + 1 => if d ≤ 10 * n then 0 else leadingZeros (10 * n) d fuel + 1

/-- The largest `k` with `10 ^ k ≤ n / d`. -/
def decimalOrder (n d : Nat) : Int :=
  if d ≤ n then (Nat.toDigits 10 (n / d)).length - 1
  else -((leadingZeros n d 400 : Nat) : Int) - 1

/-- Does the decimal `digits * 10 ^ exponent` read back as the given number? -/
def readsBack (x : Binary64) (digits : Nat) (exponent : Int) : Bool :=
  let s := scaleTen digits 1 exponent
  Binary64.ofQuotient false s.1 s.2 = x

/-- The nearest decimal of `count` digits to `n / d` that reads back, if one of
the two neighbours does. -/
def nearestDecimal? (x : Binary64) (n d : Nat) (count : Nat) : Option (Nat × Int) :=
  let unit := decimalOrder n d - (count - 1)
  let s := scaleTen n d (-unit)
  let low := s.1 / s.2
  let lowFits := low ≠ 0 ∧ readsBack x low unit
  let highFits := readsBack x (low + 1) unit
  let lowNearer := 2 * (s.1 % s.2) ≤ s.2
  if lowFits ∧ (lowNearer ∨ ¬highFits) then some (low, unit)
  else if highFits then some (low + 1, unit)
  else none

/-- The digits of the shortest decimal that reads back and the exponent of its
last digit. -/
def shortestDigits (mantissa : Nat) (exponent : Int) : Nat × Int :=
  let s := scaleDown mantissa 1 (-exponent)
  let x := Binary64.finite false mantissa exponent
  ((List.range 17).findSome? fun k => nearestDecimal? x s.1 s.2 (k + 1)).getD (mantissa, 0)

/-- Removes zeros at the end of digits. -/
def dropTrailingZeros (digits : Text) : Text :=
  (digits.reverse.dropWhile (· = '0')).reverse

/-- Writes digits, the first of which has the weight of a power of ten. -/
def layout (digits : Text) (order : Int) : Text :=
  if -4 ≤ order ∧ order < 16 then
    match order with
    | .ofNat k =>
      let whole := digits.take (k + 1) ++ List.replicate (k + 1 - digits.length) '0'
      let part := digits.drop (k + 1)
      whole ++ ['.'] ++ (if part = [] then ['0'] else part)
    | .negSucc k => ['0', '.'] ++ List.replicate k '0' ++ digits
  else
    let part := digits.drop 1
    let e := Text.ofNat order.natAbs
    digits.take 1 ++ (if part = [] then [] else '.' :: part) ++ ['e']
      ++ [if order < 0 then '-' else '+'] ++ List.replicate (2 - e.length) '0' ++ e

/-- The text of a number. -/
def Binary64.text : Binary64 → Text
  | nan => "nan".toList
  | infinity negative => (if negative then ['-'] else []) ++ "inf".toList
  | finite negative mantissa exponent =>
    (if negative then ['-'] else [])
      ++ (if mantissa = 0 then "0.0".toList
          else
            let r := shortestDigits mantissa exponent
            let digits := Text.ofNat r.1
            layout (dropTrailingZeros digits) (r.2 + ((digits.length : Int) - 1)))

end Handout
