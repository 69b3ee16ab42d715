/-
# The active variant

Which variant of a snippet a rendering shows depends on the mode, on whether
the task of the snippet is reached by the cutoff, and on whether special
solutions are preferred.

Key definitions: `Activation`, `Activation.kind`, `Options`, `activationFor`.
-/
import Handout.Document.Basic
import Handout.Render.Mode

namespace Handout

/-- One flag a variant; a decision sets exactly one. -/
structure Activation where
  student : Bool
  solution : Bool
  special : Bool
deriving Repr, DecidableEq

namespace Activation

/-- The active kind: the special solution if its flag is set, else the solution
if its flag is set, else the student's variant. -/
def kind (a : Activation) : Kind :=
  if a.special then .special else if a.solution then .solution else .student

/-- Is a kind the active one? -/
def isActive (a : Activation) (k : Kind) : Bool :=
  k = a.kind

end Activation

/-- What a rendering is asked for: the mode, up to which task solutions are
shown, and whether a special solution takes the place of the solution. -/
structure Options where
  mode : Mode
  cutoff : Option TaskNumber
  preferSpecial : Bool
deriving Repr, DecidableEq

/-- Decides the active variant of a snippet. -/
def activationFor (o : Options) (s : Snippet) : Activation :=
  let wanted := o.mode.wantsSolution && reached s.task o.cutoff
  let special := s.special.isSome && o.preferSpecial && wanted
  let solution := wanted && !special
  ⟨!solution && !special, solution, special⟩

end Handout
