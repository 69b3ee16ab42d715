/-
# Snippets

A snippet is an outermost tag named `snippet`. It may carry a task number and
holds at most one variant of each kind, each in a tag of its own; at most one
variant is live. Of several tags of one kind the first counts, and an empty tag
counts as none.

Key definitions: `Snippet`, `Snippet.variant?`, `Snippet.presentKinds`,
`Snippet.liveKinds`, `Snippet.ofTag`, `indentationBefore`.
-/
import Handout.Markup.Tree
import Handout.Task.Number
import Handout.Variant.Basic

namespace Handout

/-- A snippet: the blanks before it on its line, its task, and its variants. -/
structure Snippet where
  indentation : Text
  task : Option TaskNumber
  student : Option Variant
  solution : Option Variant
  special : Option Variant
deriving Repr, DecidableEq

namespace Snippet

/-- The name of the tag that holds a snippet. -/
def tagName : Text := "snippet".toList

/-- The key of the attribute that holds the task number. -/
def taskKey : Text := "task".toList

/-- The variant of a kind. -/
def variant? (s : Snippet) : Kind → Option Variant
  | .student => s.student
  | .solution => s.solution
  | .special => s.special

/-- The kinds that have a variant. -/
def presentKinds (s : Snippet) : List Kind :=
  Kind.all.filter fun k => (s.variant? k).isSome

/-- The kinds that have a live variant. -/
def liveKinds (s : Snippet) : List Kind :=
  Kind.all.filter fun k => (s.variant? k).any (·.live)

/-- The first kind that has a live variant. -/
def liveKind? (s : Snippet) : Option Kind :=
  s.liveKinds.head?

end Snippet

/-- Is the character blank and no part of a line break? -/
def isInlineBlank (c : Char) : Bool :=
  isBlank c && c != '\r' && c != '\n'

/-- The blank characters right before an index, back to the line break. -/
def indentationBefore (source : Text) (index : Nat) : Text :=
  ((source.take index).reverse.takeWhile isInlineBlank).reverse

namespace Snippet

/-- The task number in the attributes of a snippet. -/
def taskOf (attributes : Attributes) : Except FormatError (Option TaskNumber) :=
  match attributes.get? taskKey with
  | none => .ok none
  | some text =>
    match TaskNumber.parse? text with
    | some n => .ok (some n)
    | none => .error (.taskAttribute text)

/-- The variant of a kind among the children of a snippet. -/
def variantOf (source : Text) (children : List Node) (kind : Kind) :
    Except FormatError (Option Variant) :=
  match Node.findTag? kind.name children with
  | none => .ok none
  | some (_, []) => .ok none
  | some (_, [.text span]) => .ok (some (Variant.ofBlock (span.text source)))
  | some _ => .error (.nestedTags kind)

/-- The names of the child tags that are no variants. -/
def unknownNames (children : List Node) : List Text :=
  ((Node.tags children).map (·.1.name)).filter fun name => !(Kind.all.map Kind.name).contains name

/-- The snippet in a tag. Its task is checked first, then the variants in their
order, then the names of its child tags, then that one variant at most is
live. -/
def ofTag (source : Text) (opening : Opening) (children : List Node) :
    Except FormatError Snippet := do
  let task ← taskOf opening.attributes
  let student ← variantOf source children .student
  let solution ← variantOf source children .solution
  let special ← variantOf source children .special
  let snippet : Snippet :=
    ⟨indentationBefore source opening.start, task, student, solution, special⟩
  if unknownNames children ≠ [] then .error (.unknownVariants (unknownNames children))
  else if 1 < snippet.liveKinds.length then .error (.severalLive snippet.liveKinds)
  else .ok snippet

end Snippet
end Handout
