import TreeQuery.NodeSet.Query
import TreeQuery.Proofs.Tree.Places

/-!
# The nodes of a document

All nodes in document order: the nodes of the trees are those with a path, each once for its place,
and the attributes stand behind their elements. A set of elements is told by a property of paths.

Main statement: `filterMap_nodesWhere`.
-/

namespace TreeQuery

namespace XPath

namespace Node

/-! A node is given by a path, and an attribute by the path of its element and a number. Only the
former are ever found, so that the lists of nodes are compared as lists of paths wherever that can
be done. -/

def treePath? : Node → Option Path
  | tree p => some p
  | attributeOf _ _ => none

/-- A property of nodes of the trees, told by their paths. -/
def onTree (T : Path → Bool) : Node → Bool
  | tree p => T p
  | attributeOf _ _ => false

/-- The nodes of the trees in the list of all nodes are those with a path. -/
theorem filterMap_ofForest (i : Nat) (f : Forest) :
    (ofForest i f).filterMap treePath? = f.pathsFrom i := by
  have hunder (i : Nat) (ns : List Node) :
      (ns.map (under i)).filterMap treePath? = (ns.filterMap treePath?).map (i :: ·) := by
    rw [List.filterMap_map, List.map_filterMap]
    congr
    funext n
    cases n <;> rfl
  have hattributes (p : Path) (ks : List Nat) :
      (ks.map (attributeOf p)).filterMap treePath? = [] := by
    induction ks with
    | nil => rfl
    | cons k ks ih => exact ih
  induction f generalizing i with
  | nil => rfl
  | cons l c r ihc ihr =>
    rw [ofForest, List.filterMap_append, List.filterMap_append, List.filterMap_cons, hattributes,
      hunder, ihc, ihr]
    rfl

/-- So it is with the nodes of a document. -/
theorem filterMap_all (d : Document) : (all d).filterMap treePath? = d.paths := by
  rw [all, List.filterMap_cons, filterMap_ofForest]
  rfl

/-- The elements among some nodes. -/
theorem filterMap_element? (d : Document) (ns : List Node) :
    ns.filterMap (·.element? d) = (ns.filterMap treePath?).filter d.isElement := by
  induction ns with
  | nil => rfl
  | cons n r ih =>
    cases n with
    | attributeOf p i => exact ih
    | tree p =>
      have helement : element? d (.tree p) = if d.isElement p then some p else none := rfl
      cases hp : d.isElement p <;> simp [helement, treePath?, hp, ih]

theorem filterMap_filter_onTree (S : Path → Bool) (ns : List Node) :
    (ns.filter (onTree S)).filterMap treePath? = (ns.filterMap treePath?).filter S := by
  induction ns with
  | nil => rfl
  | cons n r ih =>
    cases n with
    | attributeOf p i => exact ih
    | tree p => cases hp : S p <;> simp [onTree, treePath?, hp, ih]

/-- A node of the trees is listed if it exists. -/
theorem tree_mem_all {d : Document} {p : Path} :
    tree p ∈ all d ↔ p = [] ∨ (d.label? p).isSome = true := by
  have h : tree p ∈ all d ↔ p ∈ d.paths := by
    rw [← filterMap_all, List.mem_filterMap]
    constructor
    · intro h
      exact ⟨tree p, h, rfl⟩
    · rintro ⟨n, hn, hp⟩
      cases n with
      | tree q =>
        obtain rfl : q = p := by simpa [treePath?] using hp
        exact hn
      | attributeOf q i => cases hp
  rw [h, Document.paths, List.mem_cons, Document.mem_content_paths_iff]

/-- The attributes of a node are listed behind it. -/
theorem attributeOf_mem_ofForest {f : Forest} {i j k : Nat} {q : Path} {l : Label}
    (h : f.label? (j :: q) = some l) (hk : k < l.attributes.length) :
    attributeOf ((i + j) :: q) k ∈ ofForest i f := by
  induction f generalizing i j q with
  | nil => cases q <;> cases h
  | cons m c r ihc ihr =>
    rw [ofForest, List.append_assoc, List.mem_append, List.mem_append]
    -- The node is in the first tree or in a later one.
    cases j with
    | succ j =>
      have hr : r.label? (j :: q) = some l := by
        cases q with
        | nil => exact h
        | cons => exact h
      have := ihr (i := i + 1) hr
      rw [Nat.add_right_comm] at this
      exact .inr (.inr this)
    | zero =>
      cases q with
      | nil =>
        obtain rfl : m = l := by simpa [Forest.label?, Forest.tree?] using h
        refine .inl (List.mem_cons_of_mem _ ?_)
        exact List.mem_map.2 ⟨k, List.mem_range.2 hk, rfl⟩
      | cons j' q =>
        have := ihc (i := 0) (j := j') (q := q) h
        rw [Nat.zero_add] at this
        exact .inr (.inl (List.mem_map.2 ⟨_, this, rfl⟩))

theorem attributeOf_mem_all {d : Document} {p : Path} {k : Nat} {l : Label}
    (h : d.label? p = some l) (hk : k < l.attributes.length) : attributeOf p k ∈ all d := by
  cases p with
  | nil => cases h
  | cons j q =>
    have := attributeOf_mem_ofForest (i := 0) h hk
    rw [Nat.zero_add] at this
    exact List.mem_cons_of_mem _ this

end Node

end XPath

namespace Document

open XPath

/-- The elements with a property, in document order. -/
def nodesWhere (d : Document) (S : Path → Bool) : List Node :=
  (Node.all d).filter (Node.onTree fun p => d.isElement p && S p)

section

variable {d : Document} {S T : Path → Bool} {n : Node}

/-- What the list holds. -/
theorem mem_nodesWhere : n ∈ d.nodesWhere S ↔
    ∃ p, n = .tree p ∧ d.isElement p = true ∧ S p = true := by
  rw [nodesWhere, List.mem_filter]
  constructor
  · rintro ⟨-, h⟩
    cases n with
    | tree p =>
      rw [Node.onTree, Bool.and_eq_true] at h
      exact ⟨p, rfl, h⟩
    | attributeOf p i => cases h
  · rintro ⟨p, rfl, h⟩
    rw [Node.onTree, Bool.and_eq_true]
    exact ⟨Node.tree_mem_all.2 (.inr (isSome_of_isElement h.1)), h⟩

theorem tree_mem_nodesWhere {p : Path} :
    Node.tree p ∈ d.nodesWhere S ↔ d.isElement p = true ∧ S p = true := by
  rw [mem_nodesWhere]
  constructor
  · rintro ⟨q, hq, h⟩
    cases hq
    exact h
  · intro h
    exact ⟨p, rfl, h⟩

/-- The property matters for elements only. -/
theorem nodesWhere_congr (h : ∀ p, d.isElement p = true → S p = T p) :
    d.nodesWhere S = d.nodesWhere T := by
  refine List.filter_congr fun n _ => ?_
  cases n with
  | tree p =>
    cases hp : d.isElement p with
    | false => simp [Node.onTree, hp]
    | true => simp [Node.onTree, hp, h p hp]
  | attributeOf p i => rfl

/-- The elements of a list of nodes, put into document order. -/
theorem ordered_eq_nodesWhere {found : List Node}
    (h : ∀ n ∈ found, ∃ p, n = .tree p ∧ d.isElement p = true)
    (hS : ∀ p, d.isElement p = true → (.tree p ∈ found ↔ S p = true)) :
    Node.ordered d found = d.nodesWhere S := by
  refine List.filter_congr fun n _ => ?_
  rw [Bool.eq_iff_iff, List.contains_iff_mem]
  cases n with
  | tree p =>
    rw [Node.onTree, Bool.and_eq_true]
    constructor
    · intro hn
      obtain ⟨q, hq, he⟩ := h _ hn
      cases hq
      exact ⟨he, (hS p he).1 hn⟩
    · rintro ⟨he, hp⟩
      exact (hS p he).2 hp
  | attributeOf p i =>
    constructor
    · intro hn
      obtain ⟨q, hq, -⟩ := h _ hn
      cases hq
    · intro hn
      cases hn

/-- The elements with a property, as paths. -/
theorem filterMap_nodesWhere (d : Document) (S : Path → Bool) :
    (d.nodesWhere S).filterMap (·.element? d) = d.elements.filter S := by
  have helements : d.paths.filter d.isElement = d.elements := rfl
  rw [nodesWhere, Node.filterMap_element?, Node.filterMap_filter_onTree, Node.filterMap_all,
    ← helements, List.filter_filter, List.filter_filter]
  refine List.filter_congr fun p _ => ?_
  cases d.isElement p <;> simp

end

end Document

end TreeQuery
