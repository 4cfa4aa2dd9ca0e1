import TreeQuery.NodeSet.Basic

/-!
# Going through the tree

The elements next to those of a set: inside them, around them and beside them. Comments,
instructions and texts on the way are passed over.

Main statement: `mem_nodes_children_iff`, the children of a set are the elements directly inside its
nodes.
-/

namespace TreeQuery

namespace Document

/-! ### From one node

The root element has no parent here, as the document is no element; nor has it siblings, although
comments may stand beside it. -/

def elementChildren (d : Document) (p : Path) : List Path := (d.children p).filter d.isElement

/-- The element directly around a node; the root element has none. -/
def elementParent? (p : Path) : Option Path :=
  match p.dropLast with
  | [] => none
  | i :: r => some (i :: r)

/-- The other elements with the same parent. -/
def elementSiblings (d : Document) (p : Path) : List Path :=
  match elementParent? p with
  | none => []
  | some r => (d.elementChildren r).filter (· != p)

/-- The next element with the same parent. -/
def nextElement? (d : Document) (p : Path) : Option Path := (d.laterSiblings p).find? d.isElement

/-- The previous element with the same parent. -/
def previousElement? (d : Document) (p : Path) : Option Path :=
  (d.earlierSiblings p).find? d.isElement

end Document

namespace NodeSet

/-! ### From all nodes

What is next to the nodes is listed node by node, in the order of the set. Two nodes have a common
child or next sibling only if they are the same, so that repetitions need to be removed only for
parents and siblings. -/

def collect (q : NodeSet) (f : Document → Path → List Path) : List Path :=
  match q.document with
  | none => []
  | some d => q.nodes.flatMap (f d)

/-- The elements directly inside the nodes. -/
def children (q : NodeSet) : NodeSet := q.holding (q.collect Document.elementChildren)

/-- The elements directly around the nodes, each once. -/
def parents (q : NodeSet) : NodeSet :=
  q.holding (q.nodes.filterMap Document.elementParent?).eraseDups

/-- The elements beside the nodes, each once. -/
def siblings (q : NodeSet) : NodeSet := q.holding (q.collect Document.elementSiblings).eraseDups

/-- The element next to each node. -/
def nexts (q : NodeSet) : NodeSet :=
  q.holding (q.collect fun d p => (d.nextElement? p).toList)

/-- The element in front of each node. -/
def previous (q : NodeSet) : NodeSet :=
  q.holding (q.collect fun d p => (d.previousElement? p).toList)

/-- The children of a set are the elements directly inside its nodes. -/
theorem mem_nodes_children_iff {q : NodeSet} {d : Document} (h : q.document = some d) {p : Path} :
    p ∈ q.children.nodes ↔ d.isElement p = true ∧ ∃ r ∈ q.nodes, p ∈ d.children r := by
  simp only [children, holding, collect, h, Document.elementChildren, List.mem_flatMap,
    List.mem_filter]
  constructor
  · rintro ⟨r, hr, hc, he⟩
    exact ⟨he, r, hr, hc⟩
  · rintro ⟨he, r, hr, hc⟩
    exact ⟨r, hr, hc, he⟩

end NodeSet

end TreeQuery
