/-
# Misuse of a command line

Arguments that make no sense are refused with one message.

Key definitions: `Misuse`, `Misuse.message`.
-/
import Handout.Text.Quoted

namespace Handout

/-- What is wrong with the arguments of a command line. -/
inductive Misuse where
  /-- An abbreviation stands for several options. -/
  | ambiguous (given : Text) (names : List Text)
  /-- A flag is given a value. -/
  | ignoredValue (name value : Text)
  /-- An option lacks its value. -/
  | noValue (name : Text)
  /-- A value is not among the choices. -/
  | invalidChoice (name given : Text) (choices : List Text)
  /-- Arguments that are needed are not there. -/
  | missing (names : List Text)
  /-- Arguments are left that mean nothing. -/
  | unrecognized (arguments : List Text)
deriving Repr, DecidableEq

/-- Texts with a comma and a space between neighbours. -/
def listed (texts : List Text) : Text :=
  Text.joinWith [',', ' '] texts

/-- The wording of a misuse. -/
def Misuse.message : Misuse → Text
  | ambiguous given names =>
    "ambiguous option: ".toList ++ given ++ " could match ".toList ++ listed names
  | ignoredValue name value =>
    "argument ".toList ++ name ++ ": ignored explicit argument ".toList ++ value.quoted
  | noValue name => "argument ".toList ++ name ++ ": expected one argument".toList
  | invalidChoice name given choices =>
    "argument ".toList ++ name ++ ": invalid choice: ".toList ++ given.quoted
      ++ " (choose from ".toList ++ listed (choices.map Text.quoted) ++ [')']
  | missing names => "the following arguments are required: ".toList ++ listed names
  | unrecognized arguments =>
    "unrecognized arguments: ".toList ++ Text.joinWith [' '] arguments

end Handout
