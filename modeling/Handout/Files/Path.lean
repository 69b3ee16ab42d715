/-
# Paths

A path is written with slashes between names. Empty names and single dots are
dropped when it is read, double dots are kept. A path that begins with a slash
starts at the root, any other at the working folder; exactly two leading
slashes are kept in print.

A location is where a path leads: the names from the root, without dots.
Containment of locations is the prefix order. There are no links, so a path
leads to one location, whatever is there.

A leading `~` stands for a home folder: alone for that of the user, with a name
behind it for that of the account of that name. An account need not be known.

Key definitions: `Location`, `Path`, `Path.parse`, `Path.text`,
`Path.resolve`, `Path.expandHome`, `Location.text`, `Location.Proper`, `suffixOf`.
-/
import Handout.Text.Quoted

namespace Handout

/-- The names from the root down. -/
abbrev Location := List Text

/-- Where a path starts. -/
inductive PathStart where
  | working
  | root
  | doubleRoot
deriving Repr, DecidableEq

/-- A start and names, among which may be double dots. -/
structure Path where
  start : PathStart
  names : List Text
deriving Repr, DecidableEq

/-- The name that leads one level up. -/
def upName : Text := ['.', '.']

/-- The absolute text of a location. -/
def Location.text (l : Location) : Text :=
  '/' :: Text.joinWith ['/'] l

namespace Path

/-- The path that leads to a location. -/
def ofLocation (l : Location) : Path :=
  ⟨.root, l⟩

/-- The start that the leading slashes of a text denote. -/
def startOf : Text → PathStart
  | '/' :: '/' :: '/' :: _ => .root
  | '/' :: '/' :: _ => .doubleRoot
  | '/' :: _ => .root
  | _ => .working

/-- Reads a path. -/
def parse (t : Text) : Path :=
  ⟨startOf t, (t.splitAt '/').filter fun n => n ≠ [] ∧ n ≠ ['.']⟩

/-- The leading slashes of a path. -/
def startText : PathStart → Text
  | .working => []
  | .root => ['/']
  | .doubleRoot => ['/', '/']

/-- Writes a path; the working folder is a single dot. -/
def text (p : Path) : Text :=
  match p.start, p.names with
  | .working, [] => ['.']
  | start, names => startText start ++ Text.joinWith ['/'] names

/-- The path of a name below a path. An empty name changes nothing. -/
def child (p : Path) (name : Text) : Path :=
  if name = [] then p else ⟨p.start, p.names ++ [name]⟩

/-- The path without its last name. -/
def parent (p : Path) : Path :=
  ⟨p.start, p.names.dropLast⟩

/-- Follows names from a location; a double dot leads one level up, whatever is
there. -/
def follow : Location → List Text → Location
  | l, [] => l
  | l, n :: r => if n = upName then follow l.dropLast r else follow (l ++ [n]) r

/-- Where the names of a path start. -/
def base (working : Location) (p : Path) : Location :=
  match p.start with
  | .working => working
  | _ => []

/-- The location that a path leads to from a working folder. -/
def resolve (working : Location) (p : Path) : Location :=
  follow (p.base working) p.names

/-- Replaces a leading `~` or `~name` by the home folder of the account; the user's
own has the empty name. There is no such path if the account is not known. -/
def expandHome (homeOf : Text → Option Location) (p : Path) : Option Path :=
  match p.start, p.names with
  | .working, ('~' :: account) :: r => (homeOf account).map fun home => ⟨.root, home ++ r⟩
  | _, _ => some p

end Path

/-- The last name of a location, empty at the root. -/
def Location.name (l : Location) : Text :=
  l.getLast?.getD []

theorem Location.name_mem {l : Location} (h : l ≠ []) : l.name ∈ l := by
  rw [Location.name, List.getLast?_eq_some_getLast h]
  exact List.getLast_mem h

/-- The names of a location as a path leads to it. -/
def Location.Proper (l : Location) : Prop :=
  ∀ n ∈ l, n ≠ [] ∧ n ≠ upName

/-- The part of a name from its last dot on, unless that dot is the first or
the last character; then nothing. -/
def suffixOf (name : Text) : Text :=
  let after := (name.reverse.takeWhile (· ≠ '.')).reverse
  let before := name.take (name.length - (after.length + 1))
  if after = [] ∨ after.length = name.length ∨ before = [] then [] else '.' :: after

end Handout
