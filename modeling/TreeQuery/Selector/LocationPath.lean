import TreeQuery.Selector.Attribute
import TreeQuery.Selector.Compilation
import TreeQuery.Selector.Compound
import TreeQuery.Selector.Pseudo
import TreeQuery.Selector.Span
import TreeQuery.Selector.Split

/-!
# Location paths

A chain of compounds becomes a location path: each compound one step, with its tests and
pseudo-classes as predicates. The path is put together from tokens, since two pseudo-classes enclose
all that has been written before them.

The functions are given the compilation of the selectors in the arguments of `not` and `has`.
-/

namespace TreeQuery

namespace Pseudo

/-! ## Predicates of pseudo-classes

The selectors of an argument are compiled one after another, each as a selector of its own. What
makes them conditions on an element is the axis that is put in front in place of the leading
slashes. -/

def notPredicate (compile : Text → Compilation Text) (argument : Text) : Compilation Text := do
  let conditions ← (Selector.alternatives argument).mapM fun part => do
    return "self::".toList ++ Text.dropLeading '/' (← compile part)
  return "[not(".toList ++ List.intercalate " or ".toList conditions ++ ")]".toList

/-- The predicate of `contains`: a text node holds the argument, whose quotes stay as they are. -/
def containsPredicate (argument : Text) : Compilation Text :=
  match Span.resolve? argument with
  | none => .fail (.unexpectedCharacter argument)
  | some spans =>
    pure ("[text()[contains(.,'".toList ++ Span.text spans ++ "')]]".toList)

def axisOf (part : Text) : Text :=
  if (Text.after? ['>', ' '] part).isSome then "child::".toList else "descendant::".toList

/-- The predicate of `has`: some selector of the argument matches below the element. -/
def hasPredicate (compile : Text → Compilation Text) (argument : Text) : Compilation Text := do
  let conditions ← (Selector.alternatives argument).mapM fun part => do
    return axisOf part ++ Text.dropLeading '/' (← compile part)
  return '[' :: List.intercalate " or ".toList conditions ++ [']']

/-- The predicate of a pseudo-class and the tokens in front of it. Where the pseudo-class selects
from the whole result, the tokens so far are enclosed in parentheses. -/
def apply (compile : Text → Compilation Text) (fragment : Text) (tokens : List Text) :
    Compilation (Text × List Text) :=
  match FunctionalPseudo.ofFragment? fragment with
  | some (.not, argument) => return (← notPredicate compile argument, tokens)
  | some (.contains, argument) => return (← containsPredicate argument, tokens)
  | some (.has, argument) => return (← hasPredicate compile argument, tokens)
  | none =>
    match StaticPseudo.ofName? fragment with
    | none => .fail (.unknownPseudoClass fragment)
    | some p =>
      pure (p.predicate, if p.isResultScoped then ['('] :: tokens ++ [[')']] else tokens)

end Pseudo

namespace Compound

def isResultScoped (c : Compound) : Bool :=
  c.pseudos.any fun f => f = StaticPseudo.first.name || f = StaticPseudo.last.name

/-- The beginning of the step of a compound with a given relation. Empty text begins none. -/
def axis? : Relation → Option Text
  | .unstated => some "//".toList
  | .blank => none
  | .stated .child => some "/".toList
  | .stated .sibling | .stated .adjacent => some "/following-sibling::".toList

def nameTest (c : Compound) : Text := if c.tag.isEmpty then ['*'] else c.tag

def appendTests : List Text → List Text → Compilation (List Text)
  | [], tokens => pure tokens
  | f :: r, tokens => do
    let p ← .ofExcept (attributePredicate f)
    appendTests r (tokens ++ [p])

def appendPseudos (compile : Text → Compilation Text) :
    List Text → List Text → Compilation (List Text)
  | [], tokens => pure tokens
  | f :: r, tokens => do
    let (p, tokens) ← Pseudo.apply compile f tokens
    appendPseudos compile r (tokens ++ [p])

/-- Put the tests and pseudo-classes of a compound behind the tokens. -/
def appendItems (compile : Text → Compilation Text) (c : Compound) (tokens : List Text) :
    Compilation (List Text) := do
  appendPseudos compile c.pseudos (← appendTests c.attributes tokens)

/-- What an element must be for a compound to match it, whatever comes before. -/
def selfTest (compile : Text → Compilation Text) (c : Compound) : Compilation Text := do
  let tokens ← appendItems compile c ["//".toList, c.nameTest]
  return Text.dropLeading '/' tokens.flatten

/-- Put the step of a compound behind the tokens. The next sibling is a later sibling whose nearest
preceding one is what the compound before asks for. Where that compound selects one element, its
next sibling is the only candidate. -/
def appendStep (compile : Text → Compilation Text) (c : Compound) (before : Option Compound)
    (tokens : List Text) : Compilation (List Text) :=
  match c.relation, before with
  | .stated .adjacent, some b =>
    if b.isResultScoped then
      appendItems compile c (tokens ++ ["/following-sibling::*[1]/self::".toList, c.nameTest])
    else do
      let test ← selfTest compile b
      appendItems compile c (tokens ++ ["/following-sibling::".toList, c.nameTest,
        "[preceding-sibling::*[1][self::".toList ++ test ++ "]]".toList])
  | relation, _ =>
    match axis? relation with
    | none => .fail .blankRelation
    | some axis => appendItems compile c (tokens ++ [axis, c.nameTest])

/-- Put the steps of a chain behind the tokens. -/
def appendChain (compile : Text → Compilation Text) :
    Option Compound → List Compound → List Text → Compilation (List Text)
  | _, [], tokens => pure tokens
  | before, c :: r, tokens => do
    let tokens ← appendStep compile c before tokens
    appendChain compile (some c) r tokens

def locationPath (compile : Text → Compilation Text) (chain : List Compound) :
    Compilation Text := do
  return (← appendChain compile none chain []).flatten

end Compound

end TreeQuery
