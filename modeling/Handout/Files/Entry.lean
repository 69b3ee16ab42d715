/-
# Files and folders

What a disk holds is a tree: a file with its content, or a folder that holds
entries under names. An entry stands at the location that the names on the way
to it spell, so everything above an entry is a folder by construction, and
copying or removing a folder is putting or erasing a whole subtree. There are
no links and no rights: an entry is reached by its names alone, and can be
written or removed wherever it stands.

Key definitions: `Entry`, `Entry.find?`, `Entry.put`, `Entry.erase`,
`Entry.contents`, `Entry.files`.
-/
import Handout.Files.Path
import Handout.Text.Utf8

namespace Handout

/-- A file with its content, or a folder with what it holds under names. -/
inductive Entry where
  | file (content : Bytes)
  | folder (entries : List (Text × Entry))
deriving Repr

namespace Entry

/-- Is it a file? -/
def isFile : Entry → Bool
  | file _ => true
  | folder _ => false

/-- Is it a folder? -/
def isFolder : Entry → Bool
  | file _ => false
  | folder _ => true

/-- What a folder holds under a name. -/
def named? (name : Text) : List (Text × Entry) → Option Entry
  | [] => none
  | (n, e) :: r => if n = name then some e else named? name r

/-- Holds an entry under a name: in the place of what is there, or at the
end. -/
def setNamed (name : Text) (entry : Entry) : List (Text × Entry) → List (Text × Entry)
  | [] => [(name, entry)]
  | (n, e) :: r => if n = name then (n, entry) :: r else (n, e) :: setNamed name entry r

/-- Holds nothing under a name. -/
def dropNamed (name : Text) : List (Text × Entry) → List (Text × Entry)
  | [] => []
  | (n, e) :: r => if n = name then dropNamed name r else (n, e) :: dropNamed name r

/-- The entry at a location below an entry. -/
def find? : Entry → Location → Option Entry
  | e, [] => some e
  | file _, _ :: _ => none
  | folder entries, n :: r =>
    match named? n entries with
    | none => none
    | some e => find? e r

/-- Puts an entry at a location, whose parent has to be a folder; nothing
changes if it is not. -/
def put (new : Entry) : Entry → Location → Entry
  | _, [] => new
  | file content, _ :: _ => file content
  | folder entries, [n] => folder (setNamed n new entries)
  | folder entries, n :: m :: r =>
    match named? n entries with
    | none => folder entries
    | some e => folder (setNamed n (put new e (m :: r)) entries)

/-- Removes the entry at a location below an entry with all that it holds. -/
def erase : Entry → Location → Entry
  | e, [] => e
  | file content, _ :: _ => file content
  | folder entries, [n] => folder (dropNamed n entries)
  | folder entries, n :: m :: r =>
    match named? n entries with
    | none => folder entries
    | some e => folder (setNamed n (erase e (m :: r)) entries)

mutual
/-- All that lies below an entry, with its location from there. -/
def contents : Entry → List (Location × Entry)
  | file _ => []
  | folder entries => contentsAll entries
/-- What a folder holds and all that lies below. -/
def contentsAll : List (Text × Entry) → List (Location × Entry)
  | [] => []
  | (n, e) :: r => ([n], e) :: (contents e).map (fun p => (n :: p.1, p.2)) ++ contentsAll r
end

/-- Inserts a location into an ascending list that it is not in. -/
def insertLocation (l : Location) : List Location → List Location
  | [] => [l]
  | m :: r => if l = m then m :: r else if l < m then l :: m :: r else m :: insertLocation l r

/-- The locations of all files below an entry, in ascending order: names are
compared one after another by their characters. -/
def files (e : Entry) : List Location :=
  (((contents e).map (·.1)).filter fun l => (e.find? l).any isFile).foldr insertLocation []

end Entry
end Handout
