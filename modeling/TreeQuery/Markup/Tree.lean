import TreeQuery.Text.Basic

/-!
# Trees

A document is a forest: elements with what they contain, and the texts, comments, instructions and
entity references between them. A node of it is named by its path, the places to go down from the
document; the path without places is the document itself.

Main statements: `Forest.mem_pathsFrom_iff`, the enumeration in document order holds exactly the
paths that lead to a node, and `Forest.label?_append`, going down in two parts.
-/

namespace TreeQuery

/-! ### Names and attributes -/

/-- A name: the namespace it belongs to, the qualifier it is written with, its own part. The first
two are empty where there are none. -/
structure Name where
  uri : Text := []
  qualifier : Text := []
  localPart : Text
  deriving DecidableEq, Repr, Inhabited

namespace Name

/-- The namespace of the names that begin with `xml:`. -/
def xmlNamespace : Text := "http://www.w3.org/XML/1998/namespace".toList

/-- The name with its namespace in braces. -/
def expanded (n : Name) : Text :=
  if n.uri.isEmpty then n.localPart else '{' :: n.uri ++ '}' :: n.localPart

def written (n : Name) : Text :=
  if n.qualifier.isEmpty then n.localPart else n.qualifier ++ ':' :: n.localPart

end Name

structure Attribute where
  name : Name
  value : Text
  /-- Whether the attribute is written without a value. -/
  bare : Bool := false
  deriving DecidableEq, Repr

/-- A namespace that an element declares; the qualifier is empty for the default namespace. -/
structure Declaration where
  qualifier : Text
  uri : Text
  deriving DecidableEq, Repr

/-- What a node is, apart from what it contains. -/
inductive Label where
  | element (name : Name) (declarations : List Declaration) (attributes : List Attribute)
  | text (content : Text)
  | comment (content : Text)
  | instruction (target content : Text)
  /-- A reference to an entity, which is not expanded, and the text that it stands for. -/
  | reference (name expansion : Text)
  deriving DecidableEq, Repr, Inhabited

namespace Label

def isElement : Label → Bool
  | element .. => true
  | _ => false

def name? : Label → Option Name
  | element n _ _ => some n
  | _ => none

def attributes : Label → List Attribute
  | element _ _ as => as
  | _ => []

def declarations : Label → List Declaration
  | element _ ds _ => ds
  | _ => []

end Label

/-! ### Forests and paths

A forest is an inductive type of its own, and not a list of trees: the recursion into the content of
a node and the one to the nodes behind it are then both structural, and an induction on a forest has
one case for a node, with a hypothesis for each of the two. -/

/-- A sequence of trees: nothing, or a node with what it contains and the trees after it. -/
inductive Forest where
  | nil
  | cons (label : Label) (children rest : Forest)
  deriving DecidableEq, Repr, Inhabited

/-- The places to go down from the document to a node. -/
abbrev Path := List Nat

namespace Forest

def length : Forest → Nat
  | nil => 0
  | cons _ _ r => r.length + 1

def append : Forest → Forest → Forest
  | nil, g => g
  | cons l c r, g => cons l c (r.append g)

/-- The tree at a place: its node and what that contains. -/
def tree? : Forest → Nat → Option (Label × Forest)
  | nil, _ => none
  | cons l c _, 0 => some (l, c)
  | cons _ _ r, i + 1 => r.tree? i

/-- The forest at the end of a path. -/
def below? (f : Forest) : Path → Option Forest
  | [] => some f
  | i :: p => (f.tree? i).bind fun t => t.2.below? p

/-- The node at the end of a path. -/
def label? (f : Forest) : Path → Option Label
  | [] => none
  | [i] => (f.tree? i).map (·.1)
  | i :: j :: p => (f.tree? i).bind fun t => t.2.label? (j :: p)

/-- The paths of all nodes in document order, with the places of the top nodes from `i` on. -/
def pathsFrom (i : Nat) : Forest → List Path
  | nil => []
  | cons _ c r => [i] :: (c.pathsFrom 0).map (i :: ·) ++ r.pathsFrom (i + 1)

/-- The paths of all nodes in document order. -/
def paths (f : Forest) : List Path := f.pathsFrom 0

/-- The text of a forest, references expanded. -/
def stringValue : Forest → Text
  | nil => []
  | cons (.text t) _ r => t ++ r.stringValue
  | cons (.reference _ e) _ r => e ++ r.stringValue
  | cons (.element ..) c r => c.stringValue ++ r.stringValue
  | cons _ _ r => r.stringValue

/-- The text of a forest, references as they are written. -/
def visibleText : Forest → Text
  | nil => []
  | cons (.text t) _ r => t ++ r.visibleText
  | cons (.reference n _) _ r => '&' :: n ++ ';' :: r.visibleText
  | cons (.element ..) c r => c.visibleText ++ r.visibleText
  | cons _ _ r => r.visibleText

/-! ### Going down

The node at the end of a path and the forest below it are found by two functions, since the document
is at the end of the empty path and is no node: a path that leads to a node is never empty. The
lemmas on the label of a node ask for that. -/

theorem below?_nil (f : Forest) : f.below? [] = some f := rfl

theorem below?_cons (f : Forest) (i : Nat) (p : Path) :
    f.below? (i :: p) = (f.tree? i).bind fun t => t.2.below? p := rfl

theorem label?_singleton (f : Forest) (i : Nat) : f.label? [i] = (f.tree? i).map (·.1) := rfl

theorem label?_cons (f : Forest) (i : Nat) {p : Path} (h : p ≠ []) :
    f.label? (i :: p) = (f.tree? i).bind fun t => t.2.label? p := by
  cases p with
  | nil => exact absurd rfl h
  | cons j q => rfl

/-- Going down in two parts. -/
theorem label?_append (f : Forest) (p : Path) {q : Path} (h : q ≠ []) :
    f.label? (p ++ q) = (f.below? p).bind (·.label? q) := by
  induction p generalizing f with
  | nil => simp [below?_nil]
  | cons i p ih =>
    rw [List.cons_append, label?_cons f i (by simp [h]), below?_cons]
    cases f.tree? i with
    | none => rfl
    | some t => simp [ih]

/-- The enumeration holds exactly the paths that lead to a node. -/
theorem mem_pathsFrom_iff (f : Forest) (i : Nat) (p : Path) :
    p ∈ f.pathsFrom i ↔ ∃ j q, p = (i + j) :: q ∧ (f.label? (j :: q)).isSome := by
  -- The enumeration of what is inside a tree counts from zero again, and that of what is behind it
  -- goes on counting; both are instances of the statement for any first number.
  induction f generalizing i p with
  | nil =>
    constructor
    · intro h; simp [pathsFrom] at h
    · rintro ⟨j, q, -, h⟩
      cases q with
      | nil => simp [label?_singleton, tree?] at h
      | cons k q => simp [label?_cons, tree?] at h
  | cons l c r ihc ihr =>
    simp only [pathsFrom, List.mem_cons, List.mem_append, List.mem_map, ihr]
    constructor
    · -- The root of the first tree, what is in it, and what is in the trees behind it.
      rintro ((rfl | ⟨q, hq, rfl⟩) | ⟨j, q, rfl, h⟩)
      · exact ⟨0, [], rfl, by simp [label?_singleton, tree?]⟩
      · obtain ⟨j, q', rfl, h⟩ := (ihc 0 q).1 hq
        refine ⟨0, (0 + j) :: q', by simp, ?_⟩
        rw [label?_cons _ _ (by simp)]
        simpa [tree?] using h
      · refine ⟨j + 1, q, by simp [Nat.add_comm, Nat.add_left_comm], ?_⟩
        cases q with
        | nil => rw [label?_singleton] at h ⊢; simpa [tree?] using h
        | cons k q =>
          rw [label?_cons _ _ (by simp)] at h ⊢; simpa [tree?] using h
    · rintro ⟨j, q, rfl, h⟩
      cases j with
      | zero =>
        left
        cases q with
        | nil => simp
        | cons k q =>
          right
          refine ⟨k :: q, (ihc 0 _).2 ⟨k, q, by simp, ?_⟩, by simp⟩
          rw [label?_cons _ _ (by simp)] at h
          simpa [tree?] using h
      | succ j =>
        right
        refine ⟨j, q, by simp [Nat.add_comm, Nat.add_left_comm], ?_⟩
        cases q with
        | nil => rw [label?_singleton] at h ⊢; simpa [tree?] using h
        | cons k q =>
          rw [label?_cons _ _ (by simp)] at h ⊢; simpa [tree?] using h

end Forest

/-! ### Documents -/

/-- A document: its top nodes, and whether it was read as HTML. -/
structure Document where
  content : Forest
  isHtml : Bool := false
  deriving DecidableEq, Repr

namespace Document

/-- The nodes below a node; all top nodes below the document. -/
def below (d : Document) (p : Path) : Forest := (d.content.below? p).getD .nil

/-- The node at the end of a path; the document itself has none. -/
def label? (d : Document) (p : Path) : Option Label := d.content.label? p

def isElement (d : Document) (p : Path) : Bool :=
  match d.label? p with
  | some l => l.isElement
  | none => false

/-- The paths of the document and all its nodes, in document order. -/
def paths (d : Document) : List Path := [] :: d.content.paths

def elements (d : Document) : List Path := d.content.paths.filter d.isElement

def root? (d : Document) : Option Path := d.elements.head?

/-- The path of the node that contains a node; none for the document. -/
def parent? : Path → Option Path
  | [] => none
  | i :: p => some (i :: p).dropLast

end Document

end TreeQuery
