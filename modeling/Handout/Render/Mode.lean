/-
# Output modes

A rendering either extracts one variant of each snippet and drops the markup,
or keeps the full markup and toggles which variant is live; in both forms it
prefers either the solution or the student's variant.

Key definitions: `Mode`, `Mode.keepsMarkup`, `Mode.wantsSolution`,
`Mode.ofName?`, `UnknownMode`, `Mode.read`.
-/
import Handout.Text.Quoted

namespace Handout

/-- The four modes of a rendering. -/
inductive Mode where
  | solution
  | student
  | fullSolution
  | fullStudent
deriving Repr, DecidableEq

namespace Mode

/-- Does the output keep the markup? -/
def keepsMarkup : Mode → Bool
  | solution | student => false
  | fullSolution | fullStudent => true

/-- Does the output prefer the solution? -/
def wantsSolution : Mode → Bool
  | solution | fullSolution => true
  | student | fullStudent => false

/-- The name of a mode on the command line. -/
def name : Mode → Text
  | solution => "solution".toList
  | student => "student".toList
  | fullSolution => "full-solution".toList
  | fullStudent => "full-student".toList

/-- The modes in the order in which they are offered. -/
def all : List Mode :=
  [solution, student, fullSolution, fullStudent]

/-- The mode of a name. -/
def ofName? (name : Text) : Option Mode :=
  all.find? fun m => m.name = name

end Mode

/-- A name that no mode has. -/
structure UnknownMode where
  name : Text
deriving Repr, DecidableEq

/-- The wording of the refusal of a name. -/
def UnknownMode.message (e : UnknownMode) : Text :=
  e.name.quoted ++ " is not a valid OutputMode".toList

/-- The mode of a name, or the refusal of the name. -/
def Mode.read (name : Text) : Except UnknownMode Mode :=
  match ofName? name with
  | some m => .ok m
  | none => .error ⟨name⟩

end Handout
