import Mathlib.Data.List.Infix
import TreeQuery.NodeSet.Reading
import TreeQuery.Proofs.XPath.Truth

/-!
# Matching

Which elements of a tree a pattern asks for, told from the tree alone and without expressions: an
element matches a chain if it is as the last link says and stands to some match of the chain before
it as the combinator says. `not` is negation, and `has` asks for a match below.
-/

namespace TreeQuery

open XPath

/-! ## Attributes -/

/-- Whether an actual value stands to a wanted one as an operator says. -/
def AttributeOperator.holds (wanted actual : Text) : AttributeOperator → Bool
  | equals => actual == wanted
  | differs => actual != wanted
  | word => (Function.words actual).contains wanted
  | part => !wanted.isEmpty && decide (wanted <:+: actual)
  | beginning => !wanted.isEmpty && decide (wanted <+: actual)
  | ending => !wanted.isEmpty && decide (wanted <:+ actual)
  | dashed => actual == wanted || decide (wanted ++ ['-'] <+: actual)

def Document.value? (d : Document) (n : Text) (p : Path) : Option Text := d.attribute? p ⟨[], n⟩

def AttributeTest.holds (d : Document) (t : AttributeTest) (p : Path) : Bool :=
  (d.value? t.name p).any fun v => t.comparison.all fun c => c.1.holds c.2 v

/-! ## Static pseudo-classes -/

namespace StaticPseudo

/-- Whether a pseudo-class asks for a position among what has been matched. -/
def isPositional : StaticPseudo → Bool
  | first | last | odd | even => true
  | _ => false

/-- Whether an element is of a pseudo-class. Those that ask for a position are not told from the
element alone. -/
def holds (d : Document) (p : Path) : StaticPseudo → Bool
  | disabled => (d.value? "disabled".toList p).isSome
  | firstChild => (d.previousElement? p).isNone
  | lastChild => (d.nextElement? p).isNone
  | onlyChild => (d.previousElement? p).isNone && (d.nextElement? p).isNone
  | empty => (d.elementChildren p).isEmpty && (d.below p).stringValue.isEmpty
  | notEmpty => !((d.elementChildren p).isEmpty && (d.below p).stringValue.isEmpty)
  | parent => !(d.elementChildren p).isEmpty
  | header => headerTags.any fun n => d.hasTag n p
  | root => !(Document.parent? p).any d.isElement
  | odd | even | first | last => false

end StaticPseudo

/-! ## Patterns -/

namespace Pattern

/-- Whether some text node directly inside an element holds a text. -/
def holdsText (d : Document) (t : Text) (p : Path) : Bool :=
  (d.children p).any fun q =>
    match d.label? q with
    | some (.text s) => decide (t <:+: s)
    | _ => false

/-- Whether an element lies in another, directly or at any depth. -/
def isWithin (direct : Bool) (p q : Path) : Bool :=
  if direct then Document.parent? q == some p else (Path.ancestors q).contains p

mutual

def Condition.holds (d : Document) : Condition → Path → Bool
  | .static s, p => s.holds d p
  | .contains t, p => holdsText d t p
  | .not cs, p => !chainsHold d cs p
  | .has rs, p => relativesHold d rs p

def chainsHold (d : Document) : List Chain → Path → Bool
  | [], _ => false
  | c :: r, p => c.holds d (fun _ => true) p || chainsHold d r p

/-- Whether one of some chains has a match that begins inside an element. -/
def relativesHold (d : Document) : List Relative → Path → Bool
  | [], _ => false
  | .mk direct c :: r, p =>
    d.elements.any (c.holds d (isWithin direct p)) || relativesHold d r p

def conditionsHold (d : Document) : List Condition → Path → Bool
  | [], _ => true
  | c :: r, p => c.holds d p && conditionsHold d r p

def Element.holds (d : Document) : Element → Path → Bool
  | .mk tag tests conditions, p =>
    d.isElement p && d.hasTag tag p && tests.all (·.holds d p) && conditionsHold d conditions p

/-- Whether an element matches a chain whose first link has to be at certain places. -/
def Chain.holds (d : Document) (begins : Path → Bool) : Chain → Path → Bool
  | .start _ e, p => begins p && e.holds d p
  | .link b none e, p => (Path.ancestors p).any (b.holds d begins) && e.holds d p
  | .link b (some .child) e, p => (Document.parent? p).any (b.holds d begins) && e.holds d p
  | .link b (some .sibling) e, p => (d.earlierSiblings p).any (b.holds d begins) && e.holds d p
  | .link b (some .adjacent) e, p =>
    (d.previousElement? p).any (b.holds d begins) && e.holds d p

end

end Pattern

/-- Whether an element matches one of the chains of a pattern. -/
def Pattern.matches (p : Pattern) (d : Document) (q : Path) : Bool := Pattern.chainsHold d p q

end TreeQuery
