/-
# Values of a settings file

A document denotes a value: nothing, a truth value, a number, a text, a list or a
map. The format knows more types than these, such as dates; of such a value only
that is kept which can be seen of it from outside.

Numbers and texts are as long as they are; no limit of a machine is part of this.

Key definitions: `OtherValue`, `Value`, `Value.isTrue`, `Value.typeName`,
`Value.shown`, `Value.get?`.
-/
import Handout.Decimal.Shortest
import Handout.Text.Quoted

namespace Handout

/-- What can be seen of a value of any other type. Such a value is never shown as an
empty text. -/
structure OtherValue where
  /-- The name of its type. -/
  typeName : Text
  /-- Its text on its own. -/
  shown : Text
  /-- Its text inside of a list or a map. -/
  inside : Text
  /-- Does it count as true? -/
  isTrue : Bool
  /-- The texts of its items, if it has items. -/
  items : Option (List Text)
  shown_ne_nil : shown ≠ []
deriving Repr, DecidableEq

/-- The values that a document can denote. -/
inductive Value where
  | null
  | bool (b : Bool)
  | int (n : Int)
  | float (x : Binary64)
  | text (t : Text)
  | list (items : List Value)
  | map (pairs : List (Value × Value))
  | other (o : OtherValue)
deriving Repr

namespace Value

/-- Does a value count as true? Nothing, zero and what is empty do not. -/
def isTrue : Value → Bool
  | null => false
  | bool b => b
  | int n => n != 0
  | float x => !x.isZero
  | text t => !t.isEmpty
  | list items => !items.isEmpty
  | map pairs => !pairs.isEmpty
  | other o => o.isTrue

/-- The name of the type of a value. -/
def typeName : Value → Text
  | null => "NoneType".toList
  | bool _ => "bool".toList
  | int _ => "int".toList
  | float _ => "float".toList
  | text _ => "str".toList
  | list _ => "list".toList
  | map _ => "dict".toList
  | other o => o.typeName

mutual
/-- The text of a value inside of a list or a map. -/
def inside : Value → Text
  | null => "None".toList
  | bool b => if b then "True".toList else "False".toList
  | int n => Text.ofInt n
  | float x => x.text
  | text t => t.quoted
  | list items => ['['] ++ Text.joinWith [',', ' '] (insideItems items) ++ [']']
  | map pairs => ['\x7b'] ++ Text.joinWith [',', ' '] (insidePairs pairs) ++ ['\x7d']
  | other o => o.inside
/-- The texts of the items of a list. -/
def insideItems : List Value → List Text
  | [] => []
  | v :: r => inside v :: insideItems r
/-- The texts of the pairs of a map. -/
def insidePairs : List (Value × Value) → List Text
  | [] => []
  | (k, v) :: r => (inside k ++ [':', ' '] ++ inside v) :: insidePairs r
end

/-- The text of a value on its own. -/
def shown : Value → Text
  | text t => t
  | other o => o.shown
  | v => inside v

/-- The value of a text key. Only a text is the same key as a text. -/
def get? (key : Text) : List (Value × Value) → Option Value
  | [] => none
  | (.text k, v) :: r => if k = key then some v else get? key r
  | _ :: r => get? key r

end Value
end Handout
