import TreeQuery.Diagnostic

/-!
# What is wrong with a selector

The causes for which a selector has no expression. Each names the text at fault: the whole compound
for a fault of its structure, else the part that is not understood.
-/

namespace TreeQuery

/-- A cause for which a selector has no expression. -/
inductive SelectorError where
  /-- Nothing to match; `inside` is the selector, unless it is blank. -/
  | emptySelector (inside : Option Text)
  | unbalancedParenthesis (compound : Text)
  | unbalancedBracket (compound : Text)
  | missingClassName (compound : Text)
  | missingIdValue (compound : Text)
  | missingPseudoName (compound : Text)
  | missingPseudoArgument (compound : Text)
  | unexpectedCharacter (compound : Text)
  /-- A selector nested `depth` levels deep, beyond the limit. -/
  | nestingTooDeep (selector : Text) (depth : Nat)
  /-- The inside of brackets that is no attribute test. -/
  | malformedAttribute (fragment : Text)
  | unknownPseudoClass (name : Text)
  /-- A relation that is given as empty text, which begins no step. No selector is read so; only a
  compound that is put together by hand can have it. -/
  | blankRelation
  deriving DecidableEq, Repr

namespace SelectorError

def code : SelectorError → Text
  | emptySelector _ => "empty-selector".toList
  | unbalancedParenthesis _ => "unbalanced-parenthesis".toList
  | unbalancedBracket _ => "unbalanced-bracket".toList
  | missingClassName _ => "missing-class-name".toList
  | missingIdValue _ => "missing-id-value".toList
  | missingPseudoName _ => "missing-pseudo-name".toList
  | missingPseudoArgument _ => "missing-pseudo-argument".toList
  | unexpectedCharacter _ => "unexpected-character".toList
  | nestingTooDeep _ _ => "nesting-too-deep".toList
  | malformedAttribute _ => "malformed-attribute-selector".toList
  | unknownPseudoClass _ => "unknown-pseudo-class".toList
  | blankRelation => "blank-relation".toList

def fragment : SelectorError → Option Text
  | emptySelector inside => inside
  | unbalancedParenthesis t | unbalancedBracket t | missingClassName t | missingIdValue t
  | missingPseudoName t | missingPseudoArgument t | unexpectedCharacter t => some t
  | nestingTooDeep s _ => some s
  | malformedAttribute f => some f
  | unknownPseudoClass n => some n
  | blankRelation => some []

/-- What is said about the fault. Of a relation that is not known only the relation is said. -/
def message : SelectorError → Text
  | blankRelation => Text.quote []
  | e => Diagnostic.describe e.code e.fragment

end SelectorError

/-! ### Results that are no fault

A reader is put together from readers that may fail. If it has a result, so has each of them; the
lemmas take such a result apart, so that no caller unfolds the sequence again. -/

/-- A sequence that has a result has one in both of its parts. -/
theorem Except.bind_eq_ok {ε α β : Type} {x : Except ε α} {f : α → Except ε β} {b : β}
    (h : x >>= f = .ok b) : ∃ a, x = .ok a ∧ f a = .ok b := by
  cases x with
  | error e => cases h
  | ok a => exact ⟨a, rfl, h⟩

/-- What is made of a result is made of a result. -/
theorem Except.map_eq_ok {ε α β : Type} {x : Except ε α} {f : α → β} {b : β}
    (h : x.map f = .ok b) : ∃ a, x = .ok a ∧ f a = b := by
  cases x with
  | error e => cases h
  | ok a => cases h; exact ⟨a, rfl, rfl⟩

end TreeQuery
