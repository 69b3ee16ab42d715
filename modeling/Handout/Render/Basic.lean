/-
# Rendering a document

Text outside of snippets is copied. A snippet becomes its active variant, made
live, when the markup is dropped. When the markup is kept, all its markers are
written anew, each variant between its own, and only the active one is live.

Key definitions: `variantMarkup`, `Snippet.render`, `Document.render`.
-/
import Handout.Render.Activation

namespace Handout

/-- `//<name` with the given attributes and `>`. -/
def openingText (name attributes : Text) : Text :=
  commentMark ++ ['<'] ++ name ++ attributes ++ ['>']

/-- `//</name>`. -/
def closingText (name : Text) : Text :=
  commentMark ++ ['<', '/'] ++ name ++ ['>']

/-- The attribute that names a task, or nothing. -/
def taskMarkup : Option TaskNumber → Text
  | none => []
  | some n => [' '] ++ Snippet.taskKey ++ ['=', '"'] ++ n.text ++ ['"']

/-- A rendered block between the markers of its kind, every part on a line of
its own after the indentation. -/
def variantMarkup (indentation : Text) (kind : Kind) (block : Text) : Text :=
  indentation ++ openingText kind.name [] ++ ['\n']
    ++ indentation ++ block ++ ['\n']
    ++ indentation ++ closingText kind.name ++ ['\n']

namespace Snippet

/-- The present variants of the given kinds between their markers, the active
one live and the others commented. -/
def renderVariants (s : Snippet) (active : Activation) : List Kind → Except FormatError Text
  | [] => .ok []
  | k :: r =>
    match s.variant? k with
    | none => renderVariants s active r
    | some v => do
      let block ← v.render (active.isActive k) s.indentation
      let rest ← renderVariants s active r
      return variantMarkup s.indentation k block ++ rest

/-- The text that takes the place of a snippet. -/
def render (o : Options) (s : Snippet) : Except FormatError Text :=
  let active := activationFor o s
  if o.mode.keepsMarkup then do
    let variants ← s.renderVariants active Kind.all
    return openingText tagName (taskMarkup s.task) ++ ['\n'] ++ variants
      ++ s.indentation ++ closingText tagName
  else
    match s.variant? active.kind with
    | none => .ok []
    | some v => v.render true s.indentation

end Snippet

/-- The text that takes the place of a piece. -/
def Piece.render (o : Options) (source : Text) : Piece → Except FormatError Text
  | text span => .ok (span.text source)
  | snippet s => s.render o

/-- The texts of some pieces, one after another. -/
def renderPieces (o : Options) (source : Text) : List Piece → Except FormatError Text
  | [] => .ok []
  | p :: r => do
    let first ← p.render o source
    let rest ← renderPieces o source r
    return first ++ rest

/-- Renders a document. -/
def Document.render (o : Options) (d : Document) : Except FormatError Text :=
  renderPieces o d.source d.pieces

end Handout
