import TreeQuery.Markup.Tree

/-!
# Tokens of markup

Markup is read into a row of tokens: tags, texts and what stands between them. A forest is grown
from the tokens by pairing each opening tag with the closing tag that ends its content; texts that
nothing separates become one node. -/

namespace TreeQuery.Markup

structure WrittenAttribute where
  name : Text
  value : Option Text
  deriving DecidableEq, Repr

inductive Token where
  /-- An opening tag; `closed` if the element has no content. -/
  | opening (name : Text) (attributes : List WrittenAttribute) (closed : Bool)
  | closing (name : Text)
  | text (content : Text)
  | comment (content : Text)
  | instruction (target content : Text)
  /-- A reference to an entity and the text that it stands for. -/
  | reference (name expansion : Text)
  deriving DecidableEq, Repr

/-! ### Texts

A run of texts is one node, whether it was written in one piece or not: a reference to a character
and the content of a `CDATA` section are texts like any other. Texts are therefore joined before
anything is grown from the tokens. -/

/-- A token in front of others, joined to the first if both are texts. -/
def joinText : Token → List Token → List Token
  | .text s, .text t :: r => .text (s ++ t) :: r
  | t, r => t :: r

def joinTexts : List Token → List Token
  | [] => []
  | .text [] :: r => joinTexts r
  | t :: r => joinText t (joinTexts r)

/-! ### Growing a forest

The tokens between an opening tag and the closing tag that ends it are the content of an element.
The name of a closing tag is not looked at: the tokens of HTML have been nested before, and in XML
that is well formed the names agree. The recursion goes into the content and then behind it, where
the tokens are known to be fewer only because growing says so in its type. -/

/-- How the tags of a kind of markup become elements: with what a tag brings into scope, and how its
names and attributes are understood there. -/
structure Dialect where
  /-- What is in scope. -/
  Scope : Type
  /-- What is in scope outside all elements. -/
  outer : Scope
  /-- The element that a tag stands for, and what is in scope inside it. -/
  element : Scope → Text → List WrittenAttribute → Label × Scope

/-- The forest up to the closing tag that ends it, and the tokens behind that tag. -/
def grow (dialect : Dialect) (scope : dialect.Scope) :
    (ts : List Token) → Forest × { r : List Token // r.length ≤ ts.length }
  | [] => (.nil, ⟨[], Nat.le_refl _⟩)
  | .closing _ :: r => (.nil, ⟨r, by simp⟩)
  | .opening n as true :: r =>
    match grow dialect scope r with
    | (rest, ⟨r', h⟩) =>
      (.cons (dialect.element scope n as).1 .nil rest,
        ⟨r', by simp only [List.length_cons]; omega⟩)
  | .opening n as false :: r =>
    match grow dialect (dialect.element scope n as).2 r with
    | (content, ⟨r', h⟩) =>
      match grow dialect scope r' with
      | (rest, ⟨r'', h'⟩) =>
        (.cons (dialect.element scope n as).1 content rest,
          ⟨r'', by simp only [List.length_cons]; omega⟩)
  | .text t :: r =>
    match grow dialect scope r with
    | (rest, ⟨r', h⟩) => (.cons (.text t) .nil rest, ⟨r', by simp only [List.length_cons]; omega⟩)
  | .comment t :: r =>
    match grow dialect scope r with
    | (rest, ⟨r', h⟩) =>
      (.cons (.comment t) .nil rest, ⟨r', by simp only [List.length_cons]; omega⟩)
  | .instruction n t :: r =>
    match grow dialect scope r with
    | (rest, ⟨r', h⟩) =>
      (.cons (.instruction n t) .nil rest, ⟨r', by simp only [List.length_cons]; omega⟩)
  | .reference n t :: r =>
    match grow dialect scope r with
    | (rest, ⟨r', h⟩) =>
      (.cons (.reference n t) .nil rest, ⟨r', by simp only [List.length_cons]; omega⟩)
termination_by ts => ts.length

/-! ### The document -/

/-- What may stand outside the root element: comments and instructions, in front of it and behind.
-/
def aroundRoot : Bool → Forest → Forest
  | _, .nil => .nil
  | rootSeen, .cons l c r =>
    match l with
    | .element .. => if rootSeen then .nil else .cons l c (aroundRoot true r)
    | .comment _ | .instruction .. => .cons l c (aroundRoot rootSeen r)
    | .text _ | .reference .. => aroundRoot rootSeen r

/-- The document that tokens describe; none if there is no element. -/
def documentOf? (dialect : Dialect) (isHtml : Bool) (ts : List Token) : Option Document :=
  let d : Document := ⟨aroundRoot false (grow dialect dialect.outer (joinTexts ts)).1, isHtml⟩
  if d.elements.isEmpty then none else some d

end TreeQuery.Markup
