/-
# Documents

A document is a source read as a sequence of plain text and snippets. Only
snippets may stand outermost.

Key definitions: `Piece`, `Document`, `Document.parse`, `Document.snippets`,
`Document.countFor`.
-/
import Handout.Document.Snippet

namespace Handout

/-- A run of text outside of snippets, or a snippet. -/
inductive Piece where
  | text (span : Span)
  | snippet (snippet : Snippet)
deriving Repr, DecidableEq

/-- A source and its pieces in order. -/
structure Document where
  source : Text
  pieces : List Piece
deriving Repr, DecidableEq

/-- The pieces of the outermost nodes of a source. -/
def piecesOf (source : Text) : List Node → Except FormatError (List Piece)
  | [] => .ok []
  | .text span :: r => do
    let rest ← piecesOf source r
    return .text span :: rest
  | .tag opening _ children :: r =>
    if opening.name ≠ Snippet.tagName then .error (.tagOutside opening.name)
    else do
      let snippet ← Snippet.ofTag source opening children
      let rest ← piecesOf source r
      return .snippet snippet :: rest

/-- The snippet of a piece that is one. -/
def Piece.snippet? : Piece → Option Snippet
  | text _ => none
  | snippet s => some s

namespace Document

/-- Reads a source as a document. -/
def parse (source : Text) : Except FormatError Document := do
  let nodes ← parseForest source
  let pieces ← piecesOf source nodes
  return ⟨source, pieces⟩

/-- The snippets in order. -/
def snippets (d : Document) : List Snippet :=
  d.pieces.filterMap Piece.snippet?

/-- The number of snippets that belong to a task or one of its parts. -/
def countFor (d : Document) (task : Option TaskNumber) : Nat :=
  d.snippets.countP fun s => belongs s.task task

end Document
end Handout
