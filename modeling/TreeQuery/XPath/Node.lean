import TreeQuery.Markup.Navigation
import TreeQuery.XPath.Expr

/-!
# Nodes and axes

The nodes that an expression can select are the document, the nodes of its trees and the attributes
of its elements. An axis lists, nearest first, the nodes that lie in one direction of a node.

Main statement: `mem_ordered_iff`, putting nodes into document order neither adds nor loses any node
of the document.
-/

namespace TreeQuery

namespace XPath

/-! ### Nodes

Attributes have no place in a forest, so that a node is either at a path or an attribute, by its
number, of the element at a path. In document order the attributes of an element come behind it and
in front of its content. -/

/-- A node that an expression can select. -/
inductive Node where
  /-- The document or a node of its trees. -/
  | tree (path : Path)
  /-- An attribute, by its number, of an element. -/
  | attributeOf (path : Path) (index : Nat)
  deriving DecidableEq, Repr

namespace Node

/-- The node at the same place below the tree at place `i`. -/
def under (i : Nat) : Node → Node
  | tree p => tree (i :: p)
  | attributeOf p k => attributeOf (i :: p) k

/-- The nodes of a forest in document order, with the places of the top nodes from `i` on. -/
def ofForest (i : Nat) : Forest → List Node
  | .nil => []
  | .cons l c r =>
    tree [i] :: (List.range l.attributes.length).map (attributeOf [i])
      ++ (ofForest 0 c).map (under i) ++ ofForest (i + 1) r

def all (d : Document) : List Node := tree [] :: ofForest 0 d.content

def ordered (d : Document) (found : List Node) : List Node := (all d).filter (found.contains ·)

/-- A node that is not one of the document is lost when nodes are put into order. -/
theorem mem_ordered_iff {d : Document} {found : List Node} {n : Node} :
    n ∈ ordered d found ↔ n ∈ all d ∧ n ∈ found := by
  simp [ordered]

/-! ### What a node is -/

def path : Node → Path
  | tree p => p
  | attributeOf p _ => p

def attribute? (d : Document) : Node → Option Attribute
  | tree _ => none
  | attributeOf p i => (d.label? p).bind fun l => l.attributes[i]?

/-- What a node of the trees is. -/
def label? (d : Document) : Node → Option Label
  | tree p => d.label? p
  | attributeOf _ _ => none

def name? (d : Document) (n : Node) : Option Name :=
  match attribute? d n with
  | some a => some a.name
  | none => (label? d n).bind Label.name?

def stringValue (d : Document) (n : Node) : Text :=
  match n with
  | attributeOf _ _ => ((attribute? d n).map (·.value)).getD []
  | tree p =>
    match d.label? p with
    | some (.text t) | some (.comment t) | some (.instruction _ t) => t
    | some (.reference _ e) => e
    | _ => (d.below p).stringValue

/-! ### Axes

The axes lead from a node to others, nearest first, which for some of them is against document
order: the positions of predicates count along the axis. From an attribute one gets to its element
and on, but never from an element to its attributes, unless the attributes are asked for. Namespaces
are no nodes here, and their axis is empty. -/

def attributes (d : Document) (p : Path) : List Node :=
  match d.label? p with
  | some l => (List.range l.attributes.length).map (attributeOf p)
  | none => []

/-- The nodes in one direction of a node of the trees, nearest first. -/
def alongFrom (d : Document) (axis : Axis) (p : Path) : List Node :=
  match axis with
  | .self => [tree p]
  | .child => (d.children p).map tree
  | .descendant => (d.descendants p).map tree
  | .descendantOrSelf => tree p :: (d.descendants p).map tree
  | .parent => ((Document.parent? p).toList).map tree
  | .ancestor => (Path.ancestors p).map tree
  | .ancestorOrSelf => tree p :: (Path.ancestors p).map tree
  | .followingSibling => (d.laterSiblings p).map tree
  | .precedingSibling => (d.earlierSiblings p).map tree
  | .following => (d.followers p).map tree
  | .preceding => (d.predecessors p).map tree
  | .attributes => attributes d p
  | .namespaces => []

/-- The nodes in one direction of an attribute of an element, nearest first. -/
def alongFromAttribute (d : Document) (axis : Axis) (p : Path) (i : Nat) : List Node :=
  match axis with
  | .self | .descendantOrSelf => [attributeOf p i]
  | .parent => [tree p]
  | .ancestor => tree p :: (Path.ancestors p).map tree
  | .ancestorOrSelf => attributeOf p i :: tree p :: (Path.ancestors p).map tree
  | .following => (d.descendants p ++ d.followers p).map tree
  | .preceding => (d.predecessors p).map tree
  | _ => []

def along (d : Document) (axis : Axis) : Node → List Node
  | tree p => alongFrom d axis p
  | attributeOf p i => alongFromAttribute d axis p i

end Node

/-! ### Tests

A name without a qualifier is a name in no namespace, whatever the default namespace of the document
is. Only the qualifier `xml` has a namespace in an expression. -/

/-- The namespace that a qualifier stands for in an expression; only one qualifier has one. -/
def boundNamespace? (qualifier : Text) : Option Text :=
  if qualifier.isEmpty then some []
  else if qualifier = "xml".toList then some Name.xmlNamespace
  else none

namespace NodeTest

/-- Whether the qualifier of a test, if it has one, has a namespace. -/
def isBound : NodeTest → Bool
  | anyNameIn q => (boundNamespace? q).isSome
  | name n => (boundNamespace? n.qualifier).isSome
  | _ => true

/-- Whether a node is of the kind that an axis selects by name. -/
def isPrincipal (d : Document) (axis : Axis) (n : Node) : Bool :=
  if axis = .attributes then (n.attribute? d).isSome
  else match n.label? d with
    | some l => l.isElement
    | none => false

def passes (d : Document) (axis : Axis) (test : NodeTest) (n : Node) : Bool :=
  match test with
  | anyName => isPrincipal d axis n
  | anyNameIn q =>
    isPrincipal d axis n && (n.name? d).any fun m => some m.uri == boundNamespace? q
  | name q =>
    isPrincipal d axis n && (n.name? d).any fun m =>
      m.localPart == q.localPart && some m.uri == boundNamespace? q.qualifier
  | node =>
    match n.label? d with
    | some (.reference ..) => false
    | _ => true
  | text =>
    match n.label? d with
    | some (.text _) => true
    | _ => false
  | comment =>
    match n.label? d with
    | some (.comment _) => true
    | _ => false
  | instruction target =>
    match n.label? d with
    | some (.instruction t _) => target.all (· == t)
    | _ => false

end NodeTest

end XPath

end TreeQuery
