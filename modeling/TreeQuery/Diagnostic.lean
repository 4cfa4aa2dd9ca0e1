import TreeQuery.Text.Case
import TreeQuery.Text.Quoted

/-!
# Diagnostics

What is said about a fault. A fault has a code in words joined by hyphens; the phrase for it comes
from a table, or from the code itself where the table has none, and the offending fragment follows
in quotes if there is one.
-/

namespace TreeQuery.Diagnostic

def phrases : List (Text × Text) := [
  ("empty-selector".toList, "Empty selector".toList),
  ("unbalanced-parenthesis".toList, "Unbalanced parenthesis in selector".toList),
  ("unbalanced-bracket".toList, "Unbalanced bracket in selector".toList),
  ("missing-class-name".toList, "Expected class name after '.'".toList),
  ("missing-id-value".toList, "Expected id value after '#'".toList),
  ("missing-pseudo-name".toList, "Expected pseudo-class name after ':'".toList),
  ("missing-pseudo-argument".toList,
    "Expected argument inside pseudo-class parentheses".toList),
  ("unexpected-character".toList, "Unexpected character in selector".toList),
  ("nesting-too-deep".toList, "Selector nesting exceeds the recursion limit".toList),
  ("malformed-attribute-selector".toList,
    "Attribute selector is malformed or contains unsupported characters".toList),
  ("unknown-pseudo-class".toList, "Pseudo class unknown".toList),
  ("invalid-xpath".toList, "Expression is malformed".toList),
  ("invalid-xpath-context".toList,
    "Expression is malformed or context node is invalid".toList)]

/-- The phrase for a code; a code that is not known is read as a sentence. -/
def phrase (code : Text) : Text :=
  match phrases.lookup code with
  | some p => p
  -- The code is made of words, so that it can be read out.
  | none => Text.capitalize (code.map fun c => if c = '-' then ' ' else c)

def describe (code : Text) (fragment : Option Text) : Text :=
  match fragment with
  | none => phrase code
  | some f => phrase code ++ ':' :: ' ' :: Text.quote f

end TreeQuery.Diagnostic
