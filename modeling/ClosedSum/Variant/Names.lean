import ClosedSum.Text.Case

/-!
# Generated names

The names of generated code are built from the words of the names in the source. Words end at `_`
and `-`, and before a capital that follows a small letter or a digit.
-/

namespace ClosedSum

open Text

namespace Words

/-- Splits the rest of a fragment, given the word read so far and whether its last character was a
small letter or a digit. -/
def splitFrom (word : List Char) (afterLower : Bool) : List Char → List (List Char)
  | [] => if word.isEmpty then [] else [word]
  | c :: cs =>
    if c = '_' ∨ c = '-' then
      if word.isEmpty then splitFrom [] false cs else word :: splitFrom [] false cs
    else
      let lower := isLower c || c.isDigit
      if isUpper c && afterLower && !word.isEmpty then word :: splitFrom (toLower c) lower cs
      else splitFrom (word ++ toLower c) lower cs

/-- The words of a fragment in lower case, none of them empty. -/
def split (fragment : String) : List (List Char) := splitFrom [] false fragment.toList

def capitalize : List Char → List Char
  | [] => []
  | c :: cs => toUpper c ++ cs

/-- All words joined by underscores. -/
def snake (parts : List String) : String :=
  String.ofList (['_'].intercalate (parts.flatMap split))

/-- All words capitalized and run together. -/
def camel (parts : List String) : String :=
  String.ofList ((parts.flatMap split).flatMap capitalize)

end Words

namespace Variant

/-- The type of a case, and its constructor. -/
def caseTypeName (variant label : String) : String := Words.camel [variant, label]

def accessorName (variant label field : String) : String := Words.snake [variant, label, field]

def predicateName (variant label : String) : String := Words.snake ["is", variant, label]

def operatorName (variant : String) : String := Words.snake ["match", variant]

end Variant

/-- The `n`th generated local name. No name in a source text holds a percent sign. -/
def freshName (stem : String) (n : Nat) : String := s!"{stem}%{n}"

end ClosedSum
