/-
# The format that the program runs with

Of the format of the settings file the program itself reads and writes a part: all
that settings are saved as, and what is usually written by hand.

Key definition: `Yaml.simple`.
-/
import Handout.Settings.Yaml
import Handout.Yaml.Reader
import Handout.Yaml.Writer

namespace Handout

/-- The wording of the refusal of a text. -/
def malformedMessage : Text :=
  "malformed settings file".toList

/-- Reads and writes a part of the format. -/
def Yaml.simple : Yaml where
  load source :=
    match Value.read? source with
    | some v => .ok v
    | none => .error ⟨.document, malformedMessage⟩
  dump := Value.document

end Handout
