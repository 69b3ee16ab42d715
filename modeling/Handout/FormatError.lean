/-
# Defects of a marked-up text

A text that breaks a rule of the markup is refused as a whole, with the first
defect found.

Key definitions: `FormatError`, `FormatError.message`.
-/
import Handout.Variant.Kind

namespace Handout

/-- The defects of a text. -/
inductive FormatError where
  /-- A text denotes no task number. -/
  | number (text : Text)
  /-- The numbers of opening and closing markers differ. -/
  | markerCounts (opening closing : Nat)
  /-- A closing marker stands where no tag is open. -/
  | closingOutside (name : Text)
  /-- A closing marker does not name the innermost open tag. -/
  | closingMismatch (name expected : Text)
  /-- An outermost tag is not a snippet. -/
  | tagOutside (name : Text)
  /-- The task attribute of a snippet denotes no task number. -/
  | taskAttribute (text : Text)
  /-- A variant holds tags. -/
  | nestedTags (kind : Kind)
  /-- A snippet holds tags that are no variants. -/
  | unknownVariants (names : List Text)
  /-- Several variants of a snippet hold live code. -/
  | severalLive (kinds : List Kind)
  /-- A line that should lose its comment mark has none. -/
  | uncommentedLine (line : Text)
deriving Repr, DecidableEq

/-- The wording of a defect. -/
def FormatError.message : FormatError → Text
  | number text => "Cannot parse hierarchical number from \"".toList ++ text ++ ['"']
  | markerCounts opening closing =>
    "There are ".toList ++ Text.ofNat opening ++ " opening tags but ".toList
      ++ Text.ofNat closing ++ " closing tags.".toList
  | closingOutside name =>
    "Encountered a closing tag of ".toList ++ name ++ " but expected no closing tag.".toList
  | closingMismatch name expected =>
    "Encountered a closing tag of ".toList ++ name ++ " but expected a closing tag of ".toList
      ++ expected ++ ['.']
  | tagOutside name => "Did not expect tag ".toList ++ name ++ " here.".toList
  | taskAttribute text => "Error parsing hierarchical number from ".toList ++ text ++ ['.']
  | nestedTags kind => "The ".toList ++ kind.name ++ " tag may not have nested tags.".toList
  | unknownVariants names =>
    "The snippet tag contains invalid subtags: ".toList
      ++ Text.joinWith [',', ' '] names ++ ['.']
  | severalLive kinds =>
    "More than one subsnippet has uncommented lines: ".toList
      ++ Text.joinWith [',', ' '] (kinds.map Kind.name) ++ ['.']
  | uncommentedLine line =>
    "Cannot remove comment from line \"".toList ++ line ++ "\".".toList

end Handout
