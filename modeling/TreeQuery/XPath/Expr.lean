import TreeQuery.XPath.Number

/-!
# Expressions

The expressions that a tree is queried with: numbers, texts and sets of nodes with their operators,
functions, and location paths. A path is the step at its end with the expression that the step
starts from.
-/

namespace TreeQuery.XPath

/-! ### Axes and tests -/

/-- A direction in the tree. -/
inductive Axis where
  | ancestor
  | ancestorOrSelf
  | attributes
  | child
  | descendant
  | descendantOrSelf
  | following
  | followingSibling
  | namespaces
  | parent
  | preceding
  | precedingSibling
  | self
  deriving DecidableEq, Repr

namespace Axis

def all : List Axis :=
  [ancestor, ancestorOrSelf, attributes, child, descendant, descendantOrSelf, following,
    followingSibling, namespaces, parent, preceding, precedingSibling, self]

/-- The name of an axis. -/
def name : Axis → Text
  | ancestor => "ancestor".toList
  | ancestorOrSelf => "ancestor-or-self".toList
  | attributes => "attribute".toList
  | child => "child".toList
  | descendant => "descendant".toList
  | descendantOrSelf => "descendant-or-self".toList
  | following => "following".toList
  | followingSibling => "following-sibling".toList
  | namespaces => "namespace".toList
  | parent => "parent".toList
  | preceding => "preceding".toList
  | precedingSibling => "preceding-sibling".toList
  | self => "self".toList

def ofName? (n : Text) : Option Axis := all.find? (·.name == n)

end Axis

/-- A name in an expression; the qualifier is empty if there is none. -/
structure QName where
  qualifier : Text := []
  localPart : Text
  deriving DecidableEq, Repr

/-- What a step asks of a node. -/
inductive NodeTest where
  /-- Any name: `*`. -/
  | anyName
  /-- Any name with a qualifier: `q:*`. -/
  | anyNameIn (qualifier : Text)
  | name (name : QName)
  /-- Any node: `node()`. -/
  | node
  | text
  | comment
  /-- An instruction, with a given target if there is one. -/
  | instruction (target : Option Text)
  deriving DecidableEq, Repr

/-! ### Expressions

A path is a step with the path in front of it as its start, so that the last step is outermost. What
a step starts from need not be a path: any expression whose value is a set of nodes will do. -/

inductive Operator where
  | or
  | and
  | equal
  | unequal
  | less
  | lessOrEqual
  | greater
  | greaterOrEqual
  | add
  | subtract
  | multiply
  | divide
  | modulo
  | union
  deriving DecidableEq, Repr

inductive Expr where
  | number (n : Number)
  | literal (t : Text)
  | variable (name : QName)
  | call (function : QName) (arguments : List Expr)
  | binary (operator : Operator) (left right : Expr)
  /-- The number of the other sign. -/
  | negated (e : Expr)
  /-- The number that signs in pairs leave. -/
  | converted (e : Expr)
  /-- The document. -/
  | root
  /-- The context node. -/
  | here
  /-- One step of a path, from each of the nodes that `start` gives. -/
  | step (start : Expr) (axis : Axis) (test : NodeTest) (predicates : List Expr)
  /-- The nodes of a set that pass a predicate, counted in document order. -/
  | filter (set predicate : Expr)
  deriving Repr

namespace Expr

/-- The step that two slashes stand for. -/
def descend (start : Expr) : Expr := step start .descendantOrSelf .node []

end Expr

end TreeQuery.XPath
