/-
# Task numbers that may be missing

A task number given from outside may be missing or blank, which means that no
number is asked for; any other text has to denote one.

Key definition: `readTask`.
-/
import Handout.FormatError
import Handout.Task.Number
import Handout.Text.Blank

namespace Handout

/-- The task number in a text; none if the text is missing or blank. -/
def readTask : Option Text → Except FormatError (Option TaskNumber)
  | none => .ok none
  | some t =>
    if t.strip = [] then .ok none
    else
      match TaskNumber.parse? t with
      | some n => .ok (some n)
      | none => .error (.number t)

end Handout
