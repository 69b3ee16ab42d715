/-
# Task numbers

A task number has one to three levels, such as `2` or `2.3.1`. Two comparisons
drive a rendering: whether a task lies at or before a cutoff (its solution is
then shown) and whether it belongs to a task (it then counts as relevant).
Both look only at the levels that the two numbers share, and each level is
checked on its own: `1.5` is not at or before `2.1`.

In a text a number is written with one digit a level. A text denotes a number
if the pattern digit, or digits with single dots between them, occurs in it
exactly once.

Key definitions: `TaskNumber`, `TaskNumber.levels`, `TaskNumber.text`,
`TaskNumber.ofLevels`, `TaskNumber.parse?`, `TaskNumber.atOrBefore`,
`TaskNumber.within`, `reached`, `belongs`.
-/
import Handout.Text.Occurrence

namespace Handout

/-- A number with one, two or three levels. -/
inductive TaskNumber where
  | one (major : Nat)
  | two (major minor : Nat)
  | three (major minor subminor : Nat)
deriving Repr, DecidableEq

/-- Why levels make no task number. -/
inductive LevelError where
  /-- There is a third level and no second. -/
  | minorMissing
  /-- A level is below zero. -/
  | negative (level : Int)
deriving Repr, DecidableEq

/-- The wording of a refusal of levels. -/
def LevelError.message : LevelError → Text
  | .minorMissing => "subminor level requires a minor level".toList
  | .negative level =>
    "hierarchical number levels must be non-negative, got ".toList ++ Text.ofInt level

namespace TaskNumber

/-- The levels that are present, from the first. -/
def levels : TaskNumber → List Nat
  | one a => [a]
  | two a b => [a, b]
  | three a b c => [a, b, c]

/-- The decimal levels with a dot between neighbours. -/
def text (n : TaskNumber) : Text :=
  Text.joinWith ['.'] (n.levels.map Text.ofNat)

/-- A level that is not below zero. -/
def levelOf : Int → Except LevelError Nat
  | .ofNat n => .ok n
  | .negSucc n => .error (.negative (.negSucc n))

/-- The number with the given levels. A third level needs a second; after that
the first level below zero is reported. -/
def ofLevels (major : Int) (minor subminor : Option Int) : Except LevelError TaskNumber :=
  match minor, subminor with
  | none, some _ => .error .minorMissing
  | none, none => do return one (← levelOf major)
  | some b, none => do return two (← levelOf major) (← levelOf b)
  | some b, some c => do return three (← levelOf major) (← levelOf b) (← levelOf c)

/-- The value of a decimal digit. -/
def digit? (c : Char) : Option Nat :=
  if '0' ≤ c ∧ c ≤ '9' then some (c.toNat - '0'.toNat) else none

/-- A dot and a digit in front of a text: the digit and what follows it. -/
def dotDigit? : Text → Option (Nat × Text)
  | '.' :: c :: r => (digit? c).map (·, r)
  | _ => none

/-- Reads a number at the front of a text, with as many levels as there are. -/
def read? : Text → Option (TaskNumber × Nat)
  | [] => none
  | c :: r =>
    match digit? c with
    | none => none
    | some a =>
      match dotDigit? r with
      | none => some (one a, 1)
      | some (b, r') =>
        match dotDigit? r' with
        | none => some (two a b, 3)
        | some (d, _) => some (three a b d, 5)

/-- The number that a text denotes: the only one that occurs in it. -/
def parse? (t : Text) : Option TaskNumber :=
  match Pattern.occurrences (fun _ => read?) t with
  | [o] => some o.value
  | _ => none

/-- Is every level of `a` at most the level of `b` in the same place, as far as
both have one? -/
def atOrBefore (a b : TaskNumber) : Bool :=
  (a.levels.zip b.levels).all fun p => p.1 ≤ p.2

/-- Do `a` and `b` agree on every level that both have? -/
def within (a b : TaskNumber) : Bool :=
  (a.levels.zip b.levels).all fun p => p.1 == p.2

end TaskNumber

/-- Does a task lie at or before a cutoff? A missing number on either side
matches. -/
def reached : (task cutoff : Option TaskNumber) → Bool
  | some task, some cutoff => task.atOrBefore cutoff
  | _, _ => true

/-- Does a task belong to the wanted task or one of its parts? A missing number
on either side matches. -/
def belongs : (task wanted : Option TaskNumber) → Bool
  | some task, some wanted => task.within wanted
  | _, _ => true

end Handout
