import TreeQuery.NodeSet.Basic
import TreeQuery.Selector.Compiler
import TreeQuery.XPath.Evaluation

/-!
# Queries

A query compiles selectors and evaluates expressions. Either can be at fault, which ends the query;
what was compiled before is remembered all the same.

Main statement: `isElement_of_elementsFor`, what an expression selects are elements.
-/

namespace TreeQuery

/-- A cause for which a query has no result. -/
inductive QueryError where
  | selector (e : SelectorError)
  /-- An expression that cannot be read, or that selects no nodes; `inContext` tells whether it was
  evaluated for a certain node. -/
  | expression (text : Text) (inContext : Bool)
  /-- A text with a character that has no place in markup. -/
  | incompatible
  /-- A name of an attribute without characters of its own. -/
  | emptyName
  /-- A name of an attribute with a namespace that does not end. -/
  | invalidName
  deriving DecidableEq, Repr

namespace QueryError

def message : QueryError → Text
  | selector e => e.message
  | expression t false => Diagnostic.describe "invalid-xpath".toList (some t)
  | expression t true => Diagnostic.describe "invalid-xpath-context".toList (some t)
  | incompatible =>
    ("All strings must be XML compatible: Unicode or ASCII, no NULL bytes or control " ++
      "characters").toList
  | emptyName => "Empty tag name".toList
  | invalidName => "Invalid tag name".toList

end QueryError

/-! ### Queries

The state is kept when a query fails: the layer of faults is inside the state, not around it. So a
selector that was compiled before an expression turned out to be wrong stays in the cache. -/

/-- A computation that may be at fault, and that uses the memory. -/
abbrev Query (α : Type) : Type := ExceptT QueryError (StateM Memory) α

namespace Query

def ofExcept {α : Type} : Except QueryError α → Query α
  | .ok a => pure a
  | .error e => throw e

/-- The expression of a selector. -/
def compile (selector : Text) : Query Text :=
  ExceptT.adapt .selector (Selector.compile {} selector)

def record (e : Event) : Query Unit := modify fun m => { m with events := e :: m.events }

end Query

/-! ### Evaluation

An expression is evaluated at a node or, where there is none, at the root element; a set that is
told to search the whole document begins at the document anyway, as its expressions begin with a
slash. Whatever else than elements is selected is left out. -/

/-- A character that has a place in markup. -/
def isCompatible (c : Char) : Bool :=
  (0x20 ≤ c.toNat || Text.isSpace c) && c != '\uFFFE' && c != '\uFFFF'

/-- The path of a node that is an element. -/
def XPath.Node.element? (d : Document) : XPath.Node → Option Path
  | tree p => if d.isElement p then some p else none
  | attributeOf _ _ => none

/-- The elements that an expression selects for a node, or for the root element. -/
def Document.elementsFor (d : Document) (context : Option Path) (expression : Text) :
    Except QueryError (List Path) :=
  if expression.all isCompatible then
    let start := (context.or d.root?).getD []
    match (XPath.Expr.ofText? expression).bind (·.select? d (.tree start)) with
    | some ns => .ok (ns.filterMap (·.element? d))
    | none => .error (.expression expression context.isSome)
  else .error .incompatible

/-- Other nodes that an expression selects are not among what it finds. -/
theorem isElement_of_elementsFor {d : Document} {context : Option Path} {expression : Text}
    {ps : List Path} (h : d.elementsFor context expression = .ok ps) :
    ∀ p ∈ ps, d.isElement p = true := by
  intro p hp
  unfold Document.elementsFor at h
  split at h
  · simp only at h
    split at h
    · next ns _ =>
      cases h
      obtain ⟨n, -, hn⟩ := List.mem_filterMap.1 hp
      cases n with
      | tree q =>
        simp only [XPath.Node.element?] at hn
        split at hn
        · next hq => cases hn; exact hq
        · cases hn
      | attributeOf q i => simp [XPath.Node.element?] at hn
    · cases h
  · cases h

namespace NodeSet

/-- The elements that an expression selects for a node, or for the root element; none if no document
is loaded. -/
def select (q : NodeSet) (expression : Text) (context : Option Path) : Query (List Path) :=
  match q.document with
  | none => pure []
  | some d => do
    .record (.evaluating expression)
    .ofExcept (d.elementsFor context expression)

end NodeSet

end TreeQuery
