/-
# Grammars of command lines

A command takes options, which may stand anywhere and begin with a dash, and at
most one more argument: a value, or the name of a further command, to which all
that follows belongs.

An option has a name with two dashes, which may be abbreviated as long as no
other name begins alike, and maybe a letter with one dash. A value stands behind
an option, or behind an equals sign in the same argument. Options with a letter
take no value, so that letters can stand together behind one dash. Two dashes
alone end the options. What begins with a dash is no option if it is a negative
number or, while it is no known option, holds a space.

All arguments are told apart before any of them takes effect; then they take
effect from left to right. What finds no place is kept as extra.

Key definitions: `OptionRule`, `Grammar`, `Argument`, `Grammar.classify`,
`Matches`, `Grammar.read`.
-/
import Handout.Command.Misuse

namespace Handout

/-- What an option does. -/
inductive OptionKind where
  /-- Shows the manual. -/
  | help
  /-- Is there or not. -/
  | flag
  /-- Takes a value. -/
  | value
  /-- Takes one of several values. -/
  | choice (choices : List Text)
deriving Repr, DecidableEq

/-- Does an option of this kind take a value? -/
def OptionKind.takesValue : OptionKind → Bool
  | help | flag => false
  | value | choice _ => true

/-- An option: its letter, its name with two dashes in front, and what it
does. -/
structure OptionRule where
  letter : Option Char
  name : Text
  kind : OptionKind
  required : Bool
deriving Repr, DecidableEq

/-- An option as messages name it. -/
def OptionRule.shown (o : OptionRule) : Text :=
  match o.letter with
  | some c => ['-', c, '/'] ++ o.name
  | none => o.name

/-- The argument beside the options. -/
inductive Operand where
  | none
  | value (name : Text)
  | command (name : Text) (choices : List Text)
deriving Repr, DecidableEq

/-- What a command takes. -/
structure Grammar where
  operand : Operand
  options : List OptionRule
deriving Repr, DecidableEq

/-- An option that an argument names: by its letter or by its name, and with the
value in the same argument, if there is one. -/
structure Mention where
  rule : OptionRule
  byLetter : Bool
  value : Option Text
deriving Repr, DecidableEq

/-- What an argument is. -/
inductive Token where
  /-- The end of the options. -/
  | divider
  /-- A value. -/
  | word
  /-- An option. -/
  | mention (m : Mention)
  /-- An option that does not exist. -/
  | unknown
deriving Repr, DecidableEq

/-- An argument and what it is. -/
structure Argument where
  text : Text
  token : Token
deriving Repr, DecidableEq

/-- The argument that ends the options. -/
def dividerText : Text := ['-', '-']

/-- Is a text a minus sign and a number, possibly with a point? -/
def isNegativeNumber : Text → Bool
  | '-' :: r =>
    let isDigit := fun c => '0' ≤ c && c ≤ '9'
    match r.dropWhile isDigit with
    | [] => !r.isEmpty
    | '.' :: s => !s.isEmpty && s.all isDigit
    | _ => false
  | _ => false

namespace Grammar

/-- The option that an argument names in full. -/
def inFull? (g : Grammar) (value : Option Text) : Text → Option Mention
  | ['-', c] =>
    (g.options.find? fun o => o.letter = some c).map fun o => ⟨o, true, value⟩
  | t => (g.options.find? fun o => o.name = t).map fun o => ⟨o, false, value⟩

/-- The options that an argument abbreviates, or the one whose letter it begins
with. -/
def candidates (g : Grammar) : Text → List Mention
  | '-' :: '-' :: r =>
    let t := '-' :: '-' :: r
    let value := match t.dropWhile (· ≠ '=') with
      | _ :: v => some v
      | [] => none
    (g.options.filter fun o => (t.takeWhile (· ≠ '=')).isPrefixOf o.name).map
      fun o => ⟨o, false, value⟩
  | '-' :: c :: r =>
    (g.options.filter fun o => o.letter = some c).map fun o => ⟨o, true, some r⟩
  | _ => []

/-- The option that stands in front of an equals sign. -/
def beforeEquals? (g : Grammar) (t : Text) : Option Mention :=
  match t.dropWhile (· ≠ '=') with
  | _ :: v => g.inFull? (some v) (t.takeWhile (· ≠ '='))
  | [] => none

/-- What an argument is. -/
def token (g : Grammar) (t : Text) : Except Misuse Token :=
  if t.head? ≠ some '-' ∨ t.length = 1 then .ok .word
  else
    match (g.inFull? none t).or (g.beforeEquals? t) with
    | some m => .ok (.mention m)
    | none =>
      match g.candidates t with
      | [m] => .ok (.mention m)
      | [] => .ok (if isNegativeNumber t || t.contains ' ' then .word else .unknown)
      | several => .error (.ambiguous t (several.map fun m => m.rule.name))

/-- Tells the arguments apart. -/
def classify (g : Grammar) : List Text → Except Misuse (List Argument)
  | [] => .ok []
  | t :: r =>
    if t = dividerText then .ok (⟨t, .divider⟩ :: r.map fun u => ⟨u, .word⟩)
    else do
      let first ← g.token t
      return ⟨t, first⟩ :: (← g.classify r)

end Grammar

/-- What the arguments of a command say: the values and flags of its options,
the argument beside them, what belongs to a further command, and what found no
place. -/
structure Matches where
  values : List (Text × Text)
  flags : List Text
  operand : Option Text
  rest : List Text
  extras : List Text
deriving Repr, DecidableEq

/-- Why the arguments are not carried out: the manual is wanted, or they make no
sense. -/
inductive Stop where
  | help
  | misuse (m : Misuse)
deriving Repr, DecidableEq

namespace Matches

/-- What no arguments say. -/
def empty : Matches :=
  ⟨[], [], none, [], []⟩

/-- The last value of an option. -/
def value? (m : Matches) (name : Text) : Option Text :=
  m.values.reverse.lookup name

/-- Is a flag there? -/
def has (m : Matches) (name : Text) : Bool :=
  m.flags.contains name

/-- An option takes effect, with its value if it takes one. -/
def take (m : Matches) (o : OptionRule) (value : Text) : Except Stop Matches :=
  match o.kind with
  | .help => .error .help
  | .flag => .ok { m with flags := m.flags ++ [o.name] }
  | .value => .ok { m with values := m.values ++ [(o.name, value)] }
  | .choice choices =>
    if choices.contains value then .ok { m with values := m.values ++ [(o.name, value)] }
    else .error (.misuse (.invalidChoice o.shown value choices))

/-- Flags take effect one after another. -/
def takeFlags (m : Matches) : List OptionRule → Except Stop Matches
  | [] => .ok m
  | o :: r => do (← m.take o []).takeFlags r

end Matches

namespace Grammar

/-- The flags that letters behind the letter of an option denote. -/
def cluster (g : Grammar) (o : OptionRule) : Text → Except Misuse (List OptionRule)
  | [] => .ok [o]
  | c :: r =>
    match g.options.find? fun next => next.letter = some c with
    | some next => do return o :: (← g.cluster next r)
    | none => .error (.ignoredValue o.shown (c :: r))

/-- An option takes effect; answers also how many of the following arguments it
used. -/
def takeMention (g : Grammar) (m : Matches) (n : Mention) (next : List Argument) :
    Except Stop (Matches × Nat) :=
  if n.rule.kind.takesValue then
    match n.value, next with
    | some v, _ => do return (← m.take n.rule v, 0)
    | none, ⟨v, .word⟩ :: _ => do return (← m.take n.rule v, 1)
    | none, _ => .error (.misuse (.noValue n.rule.shown))
  else
    match n.value with
    | none => do return (← m.take n.rule [], 0)
    | some v =>
      if n.byLetter && !v.isEmpty then do
        let flags ← (g.cluster n.rule v).mapError .misuse
        return (← m.takeFlags flags, 0)
      else .error (.misuse (.ignoredValue n.rule.shown v))

/-- A value takes the place beside the options; answers also how many arguments
were used, none if there is no place or no value. A divider next to a value goes
with it. -/
def takeValue (m : Matches) : List Argument → Matches × Nat
  | ⟨t, .word⟩ :: ⟨_, .divider⟩ :: _ => ({ m with operand := some t }, 2)
  | ⟨t, .word⟩ :: _ => ({ m with operand := some t }, 1)
  | ⟨_, .divider⟩ :: ⟨t, .word⟩ :: _ => ({ m with operand := some t }, 2)
  | _ => (m, 0)

/-- The name of a further command takes the place beside the options, and with it
all that follows; a divider in front of it is taken for its name. -/
def takeCommand (m : Matches) (name : Text) (choices : List Text) (next : List Argument) :
    Except Stop (Matches × Nat) :=
  match next with
  | [] | [⟨_, .divider⟩] => .ok (m, 0)
  | ⟨t, _⟩ :: r =>
    if choices.contains t then
      .ok ({ m with operand := some t, rest := r.map Argument.text }, next.length)
    else .error (.misuse (.invalidChoice name t choices))

/-- Values take effect; answers also how many arguments were used. -/
def takeOperand (g : Grammar) (m : Matches) (next : List Argument) : Except Stop (Matches × Nat) :=
  match g.operand, m.operand with
  | .value _, none => .ok (takeValue m next)
  | .command name choices, none => takeCommand m name choices next
  | _, _ => .ok (m, 0)

/-- Arguments take effect from left to right. -/
def takeAll (g : Grammar) (m : Matches) : List Argument → Except Stop Matches
  | [] => .ok m
  | ⟨_, .mention n⟩ :: r => do
    let (m, used) ← g.takeMention m n r
    g.takeAll m (r.drop used)
  | ⟨t, .unknown⟩ :: r => g.takeAll { m with extras := m.extras ++ [t] } r
  | first :: r => do
    let (taken, used) ← g.takeOperand m (first :: r)
    match used with
    | 0 => g.takeAll { m with extras := m.extras ++ [first.text] } r
    | used + 1 => g.takeAll taken (r.drop used)
termination_by next => next.length
decreasing_by all_goals simp only [List.length_cons, List.length_drop]; omega

/-- The names of the arguments that are needed and not there. -/
def missing (g : Grammar) (m : Matches) : List Text :=
  (match g.operand, m.operand with
    | .value name, none => [name]
    | _, _ => [])
  ++ (g.options.filter fun o => o.required && (m.value? o.name).isNone).map OptionRule.shown

/-- What the arguments of a command say. -/
def read (g : Grammar) (arguments : List Text) : Except Stop Matches := do
  let all ← (g.classify arguments).mapError .misuse
  let m ← g.takeAll .empty all
  match g.missing m with
  | [] => return m
  | names => throw (.misuse (.missing names))

end Grammar
end Handout
