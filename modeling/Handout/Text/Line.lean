/-
# Lines

A line ends at CR LF, at a CR alone or at an LF alone; CR LF is one break. A
text with `n` breaks has `n + 1` lines, the last of which may be empty.

Key definitions: `Text.lines`, `unifyBreaks`.
-/
import Handout.Text.Basic

namespace Handout
namespace Text

/-- The lines of a text, without their breaks. -/
def lines : Text → List Text
  | [] => [[]]
  | '\r' :: '\n' :: r => [] :: lines r
  | '\r' :: r => [] :: lines r
  | '\n' :: r => [] :: lines r
  | c :: r => consHead c (lines r)

end Text

/-- Makes every line break that holds a carriage return a line feed. -/
def unifyBreaks : Text → Text
  | [] => []
  | '\r' :: '\n' :: r => '\n' :: unifyBreaks r
  | '\r' :: r => '\n' :: unifyBreaks r
  | c :: r => c :: unifyBreaks r

theorem unifyBreaks_eq_self : ∀ {t : Text}, '\r' ∉ t → unifyBreaks t = t
  | [], _ => rfl
  | c :: r, h => by
    rw [List.mem_cons, not_or] at h
    rw [unifyBreaks, unifyBreaks_eq_self h.2]
    · exact fun _ hc => absurd hc.symm h.1
    · exact fun hc => absurd hc.symm h.1

end Handout
