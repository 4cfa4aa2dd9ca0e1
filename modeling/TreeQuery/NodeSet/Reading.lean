import TreeQuery.Markup.Html.Writer
import TreeQuery.NodeSet.Query

/-!
# Reading nodes

What the nodes of a set hold: their text, the attributes of the first, and the first as markup.
-/

namespace TreeQuery

/-- An attribute by its name, which may have its namespace in braces in front of it. -/
structure AttributeKey where
  uri : Text
  localPart : Text
  deriving DecidableEq, Repr

namespace AttributeKey

/-- The name that a text gives. -/
def ofText? (t : Text) : Except QueryError AttributeKey :=
  if t.all isCompatible then
    match t with
    | [] => .error .emptyName
    | '{' :: r =>
      match Text.splitAround? ['}'] r with
      | none => .error .invalidName
      | some (uri, n) => if n.isEmpty then .error .emptyName else .ok ⟨uri, n⟩
    | t => .ok ⟨[], t⟩
  else .error .incompatible

def isOf (k : AttributeKey) (a : Attribute) : Bool :=
  a.name.uri == k.uri && a.name.localPart == k.localPart

end AttributeKey

namespace Document

/-! ### What nodes hold -/

/-- The value of an attribute of a node. -/
def attribute? (d : Document) (p : Path) (k : AttributeKey) : Option Text :=
  (((d.label? p).map Label.attributes).getD []).find? k.isOf |>.map (·.value)

/-- The text of a node. -/
def textAt (d : Document) (p : Path) : Text := (d.below p).visibleText

end Document

namespace NodeSet

def text (q : NodeSet) : Text :=
  match q.document with
  | none => []
  | some d => q.nodes.flatMap d.textAt

/-- The value of an attribute of the first node. -/
def attr (q : NodeSet) (name : Text) : Query (Option Text) :=
  match q.document, q.at? 0 with
  | some d, some p => do
    let key ← .ofExcept (AttributeKey.ofText? name)
    return d.attribute? p key
  | _, _ => pure none

/-- The first node as markup. -/
def markup (q : NodeSet) : Text :=
  match q.document, q.at? 0 with
  | some d, some p => if q.asXml then Markup.Xml.writeNode d p else Markup.Html.writeNode d p
  | _, _ => []

end NodeSet

end TreeQuery
