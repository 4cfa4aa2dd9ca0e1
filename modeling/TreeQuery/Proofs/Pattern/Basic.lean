import TreeQuery.Selector.LocationPath

/-!
# Patterns

What a selector asks for, as a tree. A pattern is a list of chains; a chain is a row of elements
with the relations between them; an element is described by a tag, by tests of its attributes and by
conditions, some of which hold chains in their turn. The description of an element keeps the tests
apart from the conditions, since the order between the two groups means nothing.

The expression of a pattern is put together along the tree. Two conditions, `first` and `last`,
enclose everything in front of them; therefore the expression of a chain is built from the left,
each element appending to the text so far. -/

namespace TreeQuery

namespace Pattern

mutual

/-- A condition of an element, other than a test of an attribute. -/
inductive Condition where
  | static (p : StaticPseudo)
  /-- A text node directly inside the element holds the text. -/
  | contains (text : Text)
  /-- No chain ends in the element itself. -/
  | not (alternatives : List Chain)
  /-- Some chain ends below the element. -/
  | has (alternatives : List Relative)

/-- A chain that begins below an element. -/
inductive Relative where
  /-- Whether the chain begins among the children, or anywhere below. -/
  | mk (direct : Bool) (chain : Chain)

/-- What is asked of one element. The tag is empty where any will do. -/
inductive Element where
  | mk (tag : Text) (tests : List AttributeTest) (conditions : List Condition)

/-- A row of elements, the one that is looked for last. -/
inductive Chain where
  /-- One element, which a combinator may stand in front of. -/
  | start (opening : Option Combinator) (element : Element)
  /-- One element more; without a combinator it lies anywhere below the one before. -/
  | link (before : Chain) (combinator : Option Combinator) (element : Element)

end

/-! ## Parts -/

def Element.tag : Element → Text
  | .mk tag _ _ => tag

def Element.tests : Element → List AttributeTest
  | .mk _ tests _ => tests

def Element.conditions : Element → List Condition
  | .mk _ _ conditions => conditions

def Chain.last : Chain → Element
  | .start _ e => e
  | .link _ _ e => e

/-- Whether a condition selects from everything matched so far. -/
def Condition.isResultScoped : Condition → Bool
  | .static p => p.isResultScoped
  | _ => false

def Element.isResultScoped (e : Element) : Bool := e.conditions.any Condition.isResultScoped

/-! ## Nesting

The depth is counted as the compiler counts it: each argument is one level, and so are the
alternatives of the whole selector if there are several. -/

mutual

def Condition.nesting : Condition → Nat
  | .static _ => 0
  | .contains _ => 0
  | .not cs => nestingOfChains cs + 1
  | .has rs => nestingOfRelatives rs + 1

def nestingOfConditions : List Condition → Nat
  | [] => 0
  | c :: r => max c.nesting (nestingOfConditions r)

def nestingOfChains : List Chain → Nat
  | [] => 0
  | c :: r => max c.nesting (nestingOfChains r)

def nestingOfRelatives : List Relative → Nat
  | [] => 0
  | .mk _ c :: r => max c.nesting (nestingOfRelatives r)

def Element.nesting : Element → Nat
  | .mk _ _ conditions => nestingOfConditions conditions

def Chain.nesting : Chain → Nat
  | .start _ e => e.nesting
  | .link b _ e => max b.nesting e.nesting

end

/-! ## Expressions

The recursion follows the tree and not the text, so that what an expression looks like can be told
without running the compiler. The text so far is a parameter, since `:first` and `:last` put it in
parentheses. -/

/-- The text without the slashes that begin it. -/
abbrev unrooted (path : Text) : Text := Text.dropLeading '/' path

/-- The beginning of the step behind a combinator. -/
def axis : Option Combinator → Text
  | none => "//".toList
  | some .child => "/".toList
  | some .sibling | some .adjacent => "/following-sibling::".toList

def nameTest (tag : Text) : Text := if tag.isEmpty then ['*'] else tag

mutual

def Condition.predicate : Condition → Text
  | .static p => p.predicate
  | .contains t => "[text()[contains(.,'".toList ++ t ++ "')]]".toList
  | .not cs =>
    "[not(".toList ++ List.intercalate " or ".toList (selfPaths cs) ++ ")]".toList
  | .has rs => '[' :: List.intercalate " or ".toList (relativePaths rs) ++ [']']

/-- The paths from an element to itself that chains stand for. -/
def selfPaths : List Chain → List Text
  | [] => []
  | c :: r => ("self::".toList ++ unrooted c.xpath) :: selfPaths r

/-- The paths down from an element that chains stand for. -/
def relativePaths : List Relative → List Text
  | [] => []
  | .mk direct c :: r =>
    ((if direct then "child::".toList else "descendant::".toList) ++ unrooted c.xpath)
      :: relativePaths r

/-- A path with conditions behind it. A condition that selects from the whole result encloses the
path first. -/
def withConditions (path : Text) : List Condition → Text
  | [] => path
  | c :: r =>
    withConditions ((if c.isResultScoped then '(' :: path ++ [')'] else path) ++ c.predicate) r

/-- A path with a step for an element behind it; `nearest` is a predicate that comes first. -/
def Element.appendTo (path nearest : Text) : Element → Text
  | .mk tag tests conditions =>
    withConditions (path ++ nameTest tag ++ nearest ++ tests.flatMap AttributeTest.predicate)
      conditions

/-- What the element that a chain looks for must be, whatever comes before it. -/
def Chain.lastTest : Chain → Text
  | .start _ e => unrooted (e.appendTo (axis none) [])
  | .link _ _ e => unrooted (e.appendTo (axis none) [])

/-- The expression of a chain. The next sibling is a later sibling whose nearest preceding one is
what the element before asks for. Where that selects one element, its next sibling is the only
candidate. -/
def Chain.xpath : Chain → Text
  | .start opening e => e.appendTo (axis opening) []
  | .link b combinator e =>
    if combinator = some .adjacent then
      if b.last.isResultScoped then
        e.appendTo (b.xpath ++ "/following-sibling::*[1]/self::".toList) []
      else
        e.appendTo (b.xpath ++ axis combinator)
          ("[preceding-sibling::*[1][self::".toList ++ b.lastTest ++ "]]".toList)
    else e.appendTo (b.xpath ++ axis combinator) []

end

theorem Condition.predicate_static (p : StaticPseudo) : (static p).predicate = p.predicate := rfl

theorem Condition.predicate_contains (t : Text) :
    (contains t).predicate = "[text()[contains(.,'".toList ++ t ++ "')]]".toList := rfl

theorem Condition.predicate_not (cs : List Chain) : (not cs).predicate =
    "[not(".toList ++ List.intercalate " or ".toList (selfPaths cs) ++ ")]".toList := rfl

theorem Condition.predicate_has (rs : List Relative) : (has rs).predicate =
    '[' :: List.intercalate " or ".toList (relativePaths rs) ++ [']'] := rfl

end Pattern

/-- What a selector asks for: an element that one of the chains leads to. -/
abbrev Pattern := List Pattern.Chain

namespace Pattern

/-- How deep chains are nested in a pattern; several chains are one level of their own. -/
def nesting (p : Pattern) : Nat :=
  if 1 < p.length then nestingOfChains p + 1 else nestingOfChains p

/-- The expression of a pattern: the union of its chains. -/
def xpath (p : Pattern) : Text := List.intercalate ['|'] (p.map Chain.xpath)

end Pattern

end TreeQuery
