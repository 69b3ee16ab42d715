/-
# Summaries of a file

A summary tells how many snippets a file has, lists them with their tasks and
variants, and shows the outline of the markup if that is wanted.

Key definition: `summary`.
-/
import Handout.Command.Manual
import Handout.Document.Basic

namespace Handout

/-- A text, or a dash if there is none. -/
def orDash : Text → Text
  | [] => ['-']
  | t => t

/-- A row of the table of snippets. -/
def summaryRow (number task variants live : Text) : Text :=
  [' ', ' '] ++ number.padRight 4 ++ [' '] ++ task.padRight 8 ++ [' ']
    ++ variants.padRight 36 ++ [' '] ++ live.padRight 16

/-- The row of a snippet. -/
def snippetRow (number : Nat) (s : Snippet) : Text :=
  summaryRow (Text.ofNat number)
    (orDash (s.task.elim [] TaskNumber.text))
    (orDash (listed (s.presentKinds.map Kind.name)))
    (orDash (s.liveKind?.elim [] Kind.name))

/-- The rows of snippets, the first of which has the given number. -/
def snippetRows : Nat → List Snippet → List Text
  | _, [] => []
  | number, s :: r => snippetRow number s :: snippetRows (number + 1) r

/-- A line of `width` dashes. -/
def ruler (width : Nat) : Text :=
  [' ', ' '] ++ List.replicate width '─'

/-- The lines of the table of snippets; without snippets there is none. -/
def snippetTable (snippets : List Snippet) : List Text :=
  if snippets.isEmpty then []
  else
    [[], summaryRow ['#'] "Task".toList "Variants".toList "Live".toList, ruler 64]
      ++ snippetRows 1 snippets

/-- The lines of the outline of the markup of a source. -/
def outlineSection (source : Text) : List Text :=
  match parseForest source with
  | .ok nodes =>
    [[], "  Syntax tree:".toList]
      ++ (Node.outlineLines nodes).map fun l => List.replicate 4 ' ' ++ l
  | .error _ => []

/-- The line that counts the snippets of a task. -/
def taskLine (d : Document) (task : TaskNumber) : Text :=
  "  In task ".toList ++ Text.padRight 6 (task.text ++ [':']) ++ Text.ofNat (d.countFor (some task))

/-- The summary of the document in a file. -/
def summary (file : Text) (d : Document) (task : Option TaskNumber) (tree : Bool) : Text :=
  let lines :=
    [[], [' ', ' '] ++ file, ruler (max file.length 40),
      "  Snippets:      ".toList ++ Text.ofNat d.snippets.length]
    ++ (match task with
      | some t => [taskLine d t]
      | none => [])
    ++ snippetTable d.snippets
    ++ (if tree then outlineSection d.source else [])
    ++ [[]]
  lines.flatMap (· ++ ['\n'])

end Handout
