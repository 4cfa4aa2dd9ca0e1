import TreeQuery.NodeSet.Query
import TreeQuery.XPath.Union

/-!
# Searching by selectors

What a selector makes of a set. To find is to go down: the set of a whole document searches the
document, any other set searches below each of its nodes. To filter is to keep the nodes that the
selector matches somewhere in the document.

Main statements: `nodes_filterBy` and `nodes_excludeBy`, a predicate splits the set.
-/

namespace TreeQuery

namespace NodeSet

/-! ### Finding

The searches below the single nodes each give their elements in document order and each element
once. Together they need not, as one node may lie in another. They are put into order only where
there is more than one node and more than one element. -/

/-- The elements of the document among some nodes, in document order, each once. -/
def inOrder (q : NodeSet) (ps : List Path) : List Path :=
  match q.document with
  | none => ps
  | some d => d.elements.filter (ps.contains ·)

/-- What an expression selects for each of some nodes, each node once. -/
def selectBelow (q : NodeSet) (expression : Text) : List Path → Query (List Path)
  | [] => pure []
  | p :: r => do
    let found ← q.select expression (some p)
    let rest ← q.selectBelow expression r
    return (found ++ rest).eraseDups

/-- The nodes below those of the set that match a selector. What is found below several nodes is put
into document order. -/
def find (q : NodeSet) (selector : Text) : Query NodeSet := do
  let expression ← .compile selector
  if q.isWhole then
    return q.holding (← q.select expression none)
  let found ← q.selectBelow (XPath.anchorAll expression) q.nodes
  return q.holding (if 1 < q.length && 1 < found.length then q.inOrder found else found)

/-! ### Filtering

Filtering asks the whole document, not the surroundings of the nodes: a selector is evaluated once
and its elements are compared with the nodes. A set without nodes compiles nothing, so that an
incorrect selector is not noticed there. -/

/-- The nodes for which a predicate of node and position holds. -/
def filterBy (q : NodeSet) (p : Path → Nat → Bool) : NodeSet :=
  q.holding ((q.nodes.zipIdx.filter fun (n, i) => p n i).map (·.1))

/-- The nodes for which a predicate of node and position does not hold. -/
def excludeBy (q : NodeSet) (p : Path → Nat → Bool) : NodeSet := q.filterBy fun n i => !p n i

/-- All nodes of the document that match a selector. -/
def matching (q : NodeSet) (selector : Text) : Query (List Path) := do
  q.select (← .compile selector) none

/-- The nodes that match a selector. A set without nodes does not look at the selector. -/
def filter (q : NodeSet) (selector : Text) : Query NodeSet := do
  if q.nodes.isEmpty then return q.holding []
  let found ← q.matching selector
  return q.holding (q.nodes.filter (found.contains ·))

def exclude (q : NodeSet) (selector : Text) : Query NodeSet := do
  if q.nodes.isEmpty then return q.holding []
  let found ← q.matching selector
  return q.holding (q.nodes.filter (!found.contains ·))

/-- Whether some node matches a selector. -/
def matchesAny (q : NodeSet) (selector : Text) : Query Bool := do
  return 0 < (← q.filter selector).length

/-- The set narrowed to the nodes that match a selector, if one is given that is not empty. -/
def narrow (q : NodeSet) (selector : Option Text) : Query NodeSet :=
  match selector with
  | none | some [] => pure q
  | some s => q.filter s

/-- The nodes of a list below which something matches a selector. -/
def havingAmong (q : NodeSet) (selector : Text) : List Path → Query (List Path)
  | [] => pure []
  | p :: r => do
    let found ← (q.holding [p]).find selector
    let rest ← q.havingAmong selector r
    return if 0 < found.length then p :: rest else rest

def has (q : NodeSet) (selector : Text) : Query NodeSet := do
  return q.holding (← q.havingAmong selector q.nodes)

/-! ### Going up -/

/-- An element and those around it, innermost first. -/
def upward (p : Path) : List Path := p :: (Path.ancestors p).filter (!·.isEmpty)

/-- For each node the innermost of itself and the elements around it that matches a selector, each
once. -/
def closest (q : NodeSet) (selector : Text) : Query NodeSet := do
  if q.nodes.isEmpty then return q.holding []
  let found ← q.matching selector
  return q.holding (q.nodes.filterMap fun p => (upward p).find? (found.contains ·)).eraseDups

/-! ### Predicates

A predicate may look at the position of a node in the set. Where it does not, filtering by it is
filtering the list of the nodes. -/

/-- A predicate that leaves positions alone filters the nodes, in their order. -/
theorem nodes_filterBy (q : NodeSet) (p : Path → Bool) :
    (q.filterBy fun n _ => p n).nodes = q.nodes.filter p := by
  have h : ∀ (l : List Path) (k : Nat),
      (((l.zipIdx k).filter fun (n, _) => p n).map (·.1)) = l.filter p := by
    -- The positions of the rest begin at any number.
    intro l
    induction l with
    | nil => intro k; rfl
    | cons a r ih =>
      intro k
      cases ha : p a <;> simp [List.zipIdx_cons, ha, ih]
  exact h q.nodes 0

/-- What is excluded is what filtering leaves. -/
theorem nodes_excludeBy (q : NodeSet) (p : Path → Bool) :
    (q.excludeBy fun n _ => p n).nodes = q.nodes.filter fun n => !p n :=
  nodes_filterBy q fun n => !p n

end NodeSet

end TreeQuery
