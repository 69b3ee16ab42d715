/-
# Markers

Tags are marked in line comments: `//<name key="value">` opens a tag and
`//</name>` closes it. Opening and closing markers are looked for independently
of each other.

* An opening marker runs from `//<` and a word to the next `>`, line breaks
  included; it is none if that `>` directly follows a `/`. Opening markers do
  not overlap: inside of one no other is looked for.
* A closing marker is `//</`, a word and `>` without anything in between. One
  may lie at the end of an opening marker and end at the same `>`.

Key definitions: `Opening`, `Closing`, `Marker`, `markers`.
-/
import Handout.Markup.Attribute

namespace Handout

/-- An opening marker: where it stands, its name, and the region between the
name and the `>`. -/
structure Opening where
  start : Nat
  length : Nat
  name : Text
  region : Text
deriving Repr, DecidableEq

/-- A closing marker: where it stands and its name. -/
structure Closing where
  start : Nat
  length : Nat
  name : Text
deriving Repr, DecidableEq

/-- A marker of either sort. -/
inductive Marker where
  | opening (marker : Opening)
  | closing (marker : Closing)
deriving Repr, DecidableEq

/-- The index after the last character. -/
def Opening.stop (m : Opening) : Nat :=
  m.start + m.length

/-- The attributes in the region. -/
def Opening.attributes (m : Opening) : Attributes :=
  Attributes.read m.region

/-- The index after the last character. -/
def Closing.stop (m : Closing) : Nat :=
  m.start + m.length

namespace Marker

/-- The index of the first character. -/
def start : Marker → Nat
  | opening m => m.start
  | closing m => m.start

/-- The index after the last character. -/
def stop : Marker → Nat
  | opening m => m.stop
  | closing m => m.stop

/-- The name of the tag. -/
def name : Marker → Text
  | opening m => m.name
  | closing m => m.name

/-- Is it an opening marker? -/
def isOpening : Marker → Bool
  | opening _ => true
  | closing _ => false

end Marker

/-- The two characters that begin a line comment, and so every marker. -/
def commentMark : Text := ['/', '/']

namespace Marker

/-- The characters before the next `>`, if there is one. -/
def region? : Text → Option Text
  | [] => none
  | c :: r => if c = '>' then some [] else (region? r).map (c :: ·)

/-- The opening marker at the front of the text that begins at `start`. -/
def opening? (start : Nat) : Text → Option Opening
  | '/' :: '/' :: '<' :: r =>
    if (Text.word r).isEmpty then none
    else
      match region? (Text.afterWord r) with
      | some region =>
        if region.getLast? = some '/' then none
        else some ⟨start, 3 + (Text.word r).length + region.length + 1, Text.word r, region⟩
      | none => none
  | _ => none

/-- The closing marker at the front of the text that begins at `start`. -/
def closing? (start : Nat) : Text → Option Closing
  | '/' :: '/' :: '<' :: '/' :: r =>
    if (Text.word r).isEmpty then none
    else
      match Text.afterWord r with
      | '>' :: _ => some ⟨start, 4 + (Text.word r).length + 1, Text.word r⟩
      | _ => none
  | _ => none

/-- The markers of the text from index `start` on, the next `covered`
characters of which belong to an opening marker found before. -/
def scan : (start covered : Nat) → Text → List Marker
  | _, _, [] => []
  | start, covered, c :: r =>
    match closing? start (c :: r) with
    | some m => closing m :: scan (start + 1) (covered - 1) r
    | none =>
      match covered with
      | rest + 1 => scan (start + 1) rest r
      | 0 =>
        match opening? start (c :: r) with
        | some m => opening m :: scan (start + 1) (m.length - 1) r
        | none => scan (start + 1) 0 r

end Marker

/-- All markers of a text in the order of their first characters. -/
def markers (t : Text) : List Marker :=
  Marker.scan 0 0 t

end Handout
