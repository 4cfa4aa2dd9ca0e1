import TreeQuery.Markup.Navigation

/-!
# Sets of nodes

What is found in a document: elements in an order, each named by its path. A set that was loaded
from markup stands for the whole document, and is marked so; every set that is made from another is
not. -/

namespace TreeQuery

/-! ### Sets

A set keeps the document whole and names its nodes by paths, so that two sets of one document share
it, and everything around a node can be found from its path. -/

/-- Elements of a document in an order. -/
structure NodeSet where
  /-- The document, if one is loaded. -/
  document : Option Document := none
  nodes : List Path := []
  /-- Whether the nodes are written as XML. -/
  asXml : Bool := false
  /-- Whether the set stands for the whole document. -/
  isWhole : Bool := false
  deriving DecidableEq, Repr

namespace NodeSet

/-- The set without nodes and without a document. -/
def empty (asXml : Option Bool) : NodeSet := { asXml := asXml.getD false }

/-- The set of the elements among some nodes of a document. Unless it is said otherwise, they are
written as the document was read. -/
def ofNodes (d : Document) (ps : List Path) (asXml : Option Bool) : NodeSet :=
  let found := ps.filter d.isElement
  if found.isEmpty then empty asXml
  else { document := some d, nodes := found, asXml := asXml.getD !d.isHtml }

/-- The set that stands for a whole document. -/
def ofDocument (d : Document) (asXml : Bool) : NodeSet :=
  { document := some d, nodes := d.root?.toList, asXml := asXml, isWhole := true }

/-- Other nodes of the same document. -/
def holding (q : NodeSet) (ns : List Path) : NodeSet := { q with nodes := ns, isWhole := false }

def copy (q : NodeSet) : NodeSet := q.holding q.nodes

/-- A new set of the same nodes. -/
def wrap (q : NodeSet) (asXml : Option Bool) : NodeSet :=
  match q.document with
  | none => empty asXml
  | some d => ofNodes d q.nodes asXml

/-! ### Positions -/

def length (q : NodeSet) : Nat := q.nodes.length

def display (q : NodeSet) : Text :=
  "<DomQuery length=".toList ++ Nat.toDigits 10 q.length ++ ['>']

/-- The node at a position; negative positions count from the end. -/
def at? (q : NodeSet) (i : Int) : Option Path :=
  if 0 ≤ i then q.nodes[i.toNat]?
  else if 0 ≤ i + q.length then q.nodes[(i + q.length).toNat]?
  else none

/-- The set of the node at a position. -/
def pick (q : NodeSet) (i : Int) : NodeSet := q.holding (q.at? i).toList

def first (q : NodeSet) : NodeSet := q.pick 0

def last (q : NodeSet) : NodeSet := q.pick (-1)

/-- A position as a number of nodes in front of it. -/
def clamp (q : NodeSet) (i : Int) : Nat :=
  min (if i < 0 then i + q.length else i).toNat q.length

/-- The nodes from a position up to another, or up to the end. -/
def slice (q : NodeSet) (start : Int) (stop : Option Int) : NodeSet :=
  let stop := (stop.map q.clamp).getD q.length
  q.holding ((q.nodes.take stop).drop (q.clamp start))

def singles (q : NodeSet) : List NodeSet := q.nodes.map fun p => q.holding [p]

end NodeSet

end TreeQuery
