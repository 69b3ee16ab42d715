/-
# The tree of tags

Markers pair up as brackets do: a closing marker closes the innermost open tag,
which must have its name. What lies between markers is a run of plain text, and
a run is kept only if it is not empty. The result is an ordered forest, in
which a run of text is a span of the source.

The walk over the markers keeps the tags that are open, innermost first, each
with the finished nodes before it. It never meets the end with an open tag,
because it is only begun with as many closing as opening markers.

Key definitions: `Span`, `Node`, `Node.preorder`, `Node.outline`,
`parseForest`.
-/
import Handout.FormatError
import Handout.Markup.Marker

namespace Handout

/-- The characters of a source from index `start` on, `length` of them. -/
structure Span where
  start : Nat
  length : Nat
deriving Repr, DecidableEq

/-- The index after the last character. -/
def Span.stop (s : Span) : Nat :=
  s.start + s.length

/-- The characters of a span. -/
def Span.text (source : Text) (s : Span) : Text :=
  source.slice s.start s.length

/-- A run of text, or a tag with its markers and what lies between them. -/
inductive Node where
  | text (span : Span)
  | tag (opening : Opening) (closing : Closing) (children : List Node)
deriving Repr

namespace Node

/-- The tags among some nodes: opening marker and children of each. -/
def tags : List Node → List (Opening × List Node)
  | [] => []
  | text _ :: r => tags r
  | tag o _ children :: r => (o, children) :: tags r

/-- The first tag of a name among some nodes. -/
def findTag? (name : Text) (nodes : List Node) : Option (Opening × List Node) :=
  (tags nodes).find? fun t => t.1.name = name

mutual
/-- A node and all below it, a parent before its children, each with its
depth. -/
def preorder (depth : Nat) : Node → List (Nat × Node)
  | text span => [(depth, text span)]
  | tag o c children => (depth, tag o c children) :: preorderAll (depth + 1) children
/-- Some nodes and all below them, from left to right. -/
def preorderAll (depth : Nat) : List Node → List (Nat × Node)
  | [] => []
  | n :: r => preorder depth n ++ preorderAll depth r
end

/-- How an outline shows a node. -/
def label : Node → Text
  | text span => "Content of length ".toList ++ Text.ofNat span.length
  | tag o _ _ => o.name

/-- The lines of an outline: one for each node, indented by two spaces a
level. -/
def outlineLines (nodes : List Node) : List Text :=
  (preorderAll 0 nodes).map fun p => List.replicate (2 * p.1) ' ' ++ p.2.label

/-- The outline of nodes. -/
def outline (nodes : List Node) : Text :=
  Text.joinWith ['\n'] (outlineLines nodes)

end Node

/-- A tag that is open, with the nodes before it in reverse. -/
structure OpenTag where
  opening : Opening
  before : List Node
deriving Repr

/-- Adds the text from `cursor` up to `position`, if there is any, to nodes in
reverse. -/
def addText (cursor position : Nat) (nodes : List Node) : List Node :=
  if cursor < position then .text ⟨cursor, position - cursor⟩ :: nodes else nodes

/-- The forest of a source of `size` characters from its remaining markers. The
text up to `cursor` is done, `opened` are the open tags, innermost first, and
`nodes` the finished nodes inside the innermost one, in reverse. -/
def growForest (size : Nat) : List Marker → (cursor : Nat) → (opened : List OpenTag) →
    (nodes : List Node) → Except FormatError (List Node)
  | [], cursor, [], nodes => .ok (addText cursor size nodes).reverse
  | [], _, opened@(_ :: _), _ => .error (.markerCounts opened.length 0)
  | .opening m :: r, cursor, opened, nodes =>
    growForest size r m.stop (⟨m, addText cursor m.start nodes⟩ :: opened) []
  | .closing m :: _, _, [], _ => .error (.closingOutside m.name)
  | .closing m :: r, cursor, top :: opened, nodes =>
    if top.opening.name = m.name then
      growForest size r m.stop opened
        (.tag top.opening m (addText cursor m.start nodes).reverse :: top.before)
    else .error (.closingMismatch m.name top.opening.name)

/-- The forest of tags and runs of text of a source. -/
def parseForest (source : Text) : Except FormatError (List Node) :=
  let all := markers source
  let opening := all.countP Marker.isOpening
  let closing := all.countP (!·.isOpening)
  if opening ≠ closing then .error (.markerCounts opening closing)
  else growForest source.length all 0 [] []

end Handout
