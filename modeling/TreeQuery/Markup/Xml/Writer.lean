import TreeQuery.Markup.Tree

/-!
# Writing XML

A node with all it contains as XML. Elements without content close themselves, values stand between
quotation marks, and what would be read differently is written as a reference. A node that is
written on its own carries along the namespaces that are in scope where it stands.

Main statement: `escape_plain`, a text without special characters is written as it is.
-/

namespace TreeQuery.Markup.Xml

/-! ### Characters -/

/-- A character as it stands between tags. -/
def textChar (c : Char) : Text :=
  if c = '&' then "&amp;".toList
  else if c = '<' then "&lt;".toList
  else if c = '>' then "&gt;".toList
  else if c = '\r' then "&#13;".toList
  else [c]

/-- A character as it stands in a value. -/
def valueChar (c : Char) : Text :=
  if c = '"' then "&quot;".toList
  else if c = '\n' then "&#10;".toList
  else if c = '\t' then "&#9;".toList
  else textChar c

def escape (t : Text) : Text := t.flatMap textChar

/-- A character that is written as it is. -/
def isPlainChar (c : Char) : Bool := c != '&' && c != '<' && c != '>' && c != '\r'

/-- A text without special characters is written as it is. -/
theorem escape_plain {t : Text} (h : ∀ c ∈ t, isPlainChar c = true) : escape t = t := by
  induction t with
  | nil => rfl
  | cons c r ih =>
    have hc : textChar c = [c] := by
      have := h c (by simp)
      simp only [isPlainChar, Bool.and_eq_true, bne_iff_ne, ne_eq] at this
      simp [textChar, this]
    have hr := ih fun d hd => h d (by simp [hd])
    simp only [escape] at hr
    simp [escape, hc, hr]

/-! ### Tags -/

/-- A name with a value. -/
def assigned (n v : Text) : Text := ' ' :: n ++ '=' :: '"' :: v.flatMap valueChar ++ ['"']

def declaration (d : Declaration) : Text :=
  assigned (if d.qualifier.isEmpty then "xmlns".toList else "xmlns:".toList ++ d.qualifier) d.uri

/-- The inside of an opening tag. -/
def tagInside (n : Name) (ds : List Declaration) (as : List Attribute) : Text :=
  n.written ++ ds.flatMap declaration ++ as.flatMap fun a => assigned a.name.written a.value

def comment (t : Text) : Text := "<!--".toList ++ t ++ "-->".toList

def reference (n : Text) : Text := '&' :: n ++ [';']

/-! ### Nodes -/

def write : Forest → Text
  | .nil => []
  | .cons (.element n ds as) c r =>
    let inside := tagInside n ds as
    (match c with
      | .nil => '<' :: inside ++ ['/', '>']
      | .cons .. => '<' :: inside ++ '>' :: write c ++ '<' :: '/' :: n.written ++ ['>']) ++ write r
  | .cons (.text t) _ r => escape t ++ write r
  | .cons (.comment t) _ r => comment t ++ write r
  | .cons (.instruction n t) _ r =>
    '<' :: '?' :: n ++ (if t.isEmpty then [] else ' ' :: t) ++ '?' :: '>' :: write r
  | .cons (.reference n _) _ r => reference n ++ write r

/-! ### Namespaces in scope

The declarations of the elements around a node are not part of it, but its names may need them. They
are collected from the innermost element outwards, so that a qualifier that is declared twice keeps
its inner meaning. What the names of the node itself rely on comes first, as a name need not have
been declared at all. -/

/-- Declarations with further ones behind them, whose qualifiers are not declared yet. -/
def extend (ds : List Declaration) : List Declaration → List Declaration
  | [] => ds
  | d :: r => extend (if ds.any (·.qualifier == d.qualifier) then ds else ds ++ [d]) r

/-- The declaration that a name relies on. -/
def reliedOn? (n : Name) : Option Declaration :=
  if n.uri.isEmpty || n.uri == Name.xmlNamespace then none else some ⟨n.qualifier, n.uri⟩

/-- The declarations of the element at the end of a path, those that its names rely on, and those of
the elements around it, nearest first. -/
def inScope (d : Document) (p : Path) : List Declaration :=
  match d.label? p with
  | some (.element n ds as) =>
    let names := n :: as.map (·.name)
    let around := (List.range p.length).reverse.flatMap fun k =>
      ((d.label? (p.take k)).map Label.declarations).getD []
    extend ds (names.filterMap reliedOn? ++ around)
  | _ => []

/-- The node at the end of a path, with the namespaces in scope there. -/
def nodeInScope (d : Document) (p : Path) : Forest :=
  match d.label? p with
  | some (.element n _ as) => .cons (.element n (inScope d p) as) (d.below p) .nil
  | some l => .cons l (d.below p) .nil
  | none => .nil

def writeNode (d : Document) (p : Path) : Text := write (nodeInScope d p)

end TreeQuery.Markup.Xml
