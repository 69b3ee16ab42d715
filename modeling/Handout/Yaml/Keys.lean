/-
# Keys of a map

A map keeps the order in which its keys first appear, and the last value of a key
counts. Two keys are the same if they are equal as values; a truth value equals the
number one or zero. Lists and maps are no keys.

Key definitions: `Value.isKey`, `Value.sameKey`, `Value.setKey`.
-/
import Handout.Settings.Value

namespace Handout
namespace Value

/-- Is the value a key? Lists and maps are not. -/
def isKey : Value → Bool
  | list _ | map _ => false
  | _ => true

/-- The whole number that a number or a truth value equals. -/
def whole? : Value → Option Int
  | bool b => some (if b then 1 else 0)
  | int n => some n
  | float (.finite negative m e) =>
    let sign : Int := if negative then -1 else 1
    match e with
    | .ofNat k => some (sign * (m * Nat.pow 2 k : Nat))
    | .negSucc k =>
      if m % Nat.pow 2 (k + 1) = 0 then some (sign * (m / Nat.pow 2 (k + 1) : Nat)) else none
  | _ => none

/-- Are two keys the same? -/
def sameKey (a b : Value) : Bool :=
  match a, b with
  | text s, text t => s = t
  | other o, other p => o = p
  | null, null => true
  | float .nan, float .nan => false
  | float x, float y => x = y || (x.isZero && y.isZero)
  | a, b =>
    match a.whole?, b.whole? with
    | some m, some n => m = n
    | _, _ => false

/-- Sets the value of a key: in its place if it is there, else at the end. -/
def setKey (key value : Value) : List (Value × Value) → List (Value × Value)
  | [] => [(key, value)]
  | (k, v) :: r => if k.sameKey key then (k, value) :: r else (k, v) :: setKey key value r

end Value
end Handout
