import TreeQuery.Proofs.Pattern.Basic
import TreeQuery.Selector.Compiler

/-!
# The pattern of a selector

A selector is read into a pattern: its alternatives into chains, the compounds of a chain into
elements, the fragments of a compound into tests and conditions. The selectors in arguments are
read in their turn. As each of them is shorter than the selector that it stands in, reading ends;
no bound on the depth is needed.

Main definitions: `Selector.chain` and `Selector.pattern`.
-/

namespace TreeQuery

namespace Pattern

/-! ## Reading the parts

The order in which the parts are read is that of the compiler, tests before conditions, so that of
several faults the same one is reported. -/

def readTest (fragment : Text) : Except SelectorError AttributeTest :=
  match AttributeTest.ofFragment? fragment with
  | some t => .ok t
  | none => .error (.malformedAttribute fragment)

section

/-! How the selectors in arguments are read is given. -/

variable (nested : Text → Except SelectorError Chain)

/-- An alternative of `has`, which begins among the children if a child sign and a space begin it.
-/
def Relative.read (part : Text) : Except SelectorError Relative := do
  return .mk (Text.after? ['>', ' '] part).isSome (← nested part)

def Condition.read (fragment : Text) : Except SelectorError Condition :=
  match FunctionalPseudo.ofFragment? fragment with
  | some (.not, argument) => do return .not (← (Selector.alternatives argument).mapM nested)
  | some (.contains, argument) =>
    match Span.resolve? argument with
    | none => .error (.unexpectedCharacter argument)
    | some spans => .ok (.contains (Span.text spans))
  | some (.has, argument) => do
    return .has (← (Selector.alternatives argument).mapM (Relative.read nested))
  | none =>
    match StaticPseudo.ofName? fragment with
    | none => .error (.unknownPseudoClass fragment)
    | some p => .ok (.static p)

def Element.read (c : TreeQuery.Compound) : Except SelectorError Element := do
  let tests ← c.attributes.mapM readTest
  let conditions ← c.pseudos.mapM (Condition.read nested)
  return .mk c.tag tests conditions

def combinator? : Relation → Option Combinator
  | .stated c => some c
  | _ => none

/-- A chain with the elements of further compounds behind it. -/
def Chain.extend (before : Chain) : List TreeQuery.Compound → Except SelectorError Chain
  | [] => .ok before
  | c :: r => do Chain.extend (.link before (combinator? c.relation) (← Element.read nested c)) r

/-- The chain of the elements of some compounds, if there are any. -/
def Chain.read : List TreeQuery.Compound → Except SelectorError (Option Chain)
  | [] => .ok none
  | c :: r => do
    return some (← Chain.extend nested (.start (combinator? c.relation) (← Element.read nested c)) r)

def Chain.ofText (selector : Text) : Except SelectorError Chain :=
  if Text.isAllBlank selector then .error (.emptySelector none)
  else do
    match ← Chain.read nested (← TreeQuery.Compound.readChain (Selector.tokens selector)) with
    | none => .error (.emptySelector (some selector))
    | some c => .ok c

end

end Pattern

namespace Selector

open Pattern

/-- The chain of a selector without alternatives, if selectors are not nested deeper than `levels`.
-/
def chainWithin : (levels : Nat) → Text → Except SelectorError Chain
  | 0, _ => .error (.emptySelector none)
  | levels + 1, selector => Chain.ofText (chainWithin levels) selector

/-- The chain of a selector without alternatives. No selector is nested deeper than it is long. -/
def chain (selector : Text) : Except SelectorError Chain :=
  chainWithin (selector.length + 1) selector

def pattern (selector : Text) : Except SelectorError Pattern :=
  if Text.isAllBlank selector then .error (.emptySelector none)
  else if 1 < (alternatives selector).length then (alternatives selector).mapM chain
  else (chain selector).map ([·])

end Selector

end TreeQuery
