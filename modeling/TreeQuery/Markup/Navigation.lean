import TreeQuery.Markup.Tree

/-!
# Navigation

The nodes of a document in each direction of a node. Those that lie behind a node are listed in
document order, those in front of it in the opposite order, so that the nearest always comes first.

Main statements: `mem_children_iff`, `parent?_of_mem_children` and `mem_ancestors_iff`.
-/

namespace TreeQuery

namespace Path

/-- Whether a path comes before another in document order. -/
def before : Path → Path → Bool
  | [], _ :: _ => true
  | i :: p, j :: q => decide (i < j) || (i == j && before p q)
  | _, [] => false

def ancestors (p : Path) : List Path := ((List.range p.length).map fun n => p.take n).reverse

/-- What a node lies in are the proper beginnings of its path. -/
theorem mem_ancestors_iff {p q : Path} : q ∈ ancestors p ↔ q <+: p ∧ q ≠ p := by
  simp only [ancestors, List.mem_reverse, List.mem_map, List.mem_range]
  constructor
  · rintro ⟨n, hn, rfl⟩
    refine ⟨List.take_prefix n p, fun h => ?_⟩
    have := congrArg List.length h
    rw [List.length_take] at this; omega
  · rintro ⟨⟨t, rfl⟩, hne⟩
    have ht : t ≠ [] := by rintro rfl; simp at hne
    exact ⟨q.length, by simpa using List.length_pos_iff.2 ht, by simp⟩

end Path

namespace Document

/-! ### Directions

Only the children, the descendants and the siblings are read off the forest below a node. What comes
before a node and after it is a part of the enumeration of all nodes: paths in document order are
ordered like words, and the one that a path begins with comes first. -/

def children (d : Document) (p : Path) : List Path :=
  (List.range (d.below p).length).map fun i => p ++ [i]

/-- All that a node contains, in document order. -/
def descendants (d : Document) (p : Path) : List Path := (d.below p).paths.map (p ++ ·)

def laterSiblings (d : Document) (p : Path) : List Path :=
  match p.getLast? with
  | none => []
  | some i => (d.children p.dropLast).drop (i + 1)

def earlierSiblings (d : Document) (p : Path) : List Path :=
  match p.getLast? with
  | none => []
  | some i => ((d.children p.dropLast).take i).reverse

/-- What comes after a node and is not contained in it, in document order. -/
def followers (d : Document) (p : Path) : List Path :=
  d.paths.filter fun q => Path.before p q && !p.isPrefixOf q

/-- What comes before a node and does not contain it, nearest first. -/
def predecessors (d : Document) (p : Path) : List Path :=
  (d.paths.filter fun q => Path.before q p && !q.isPrefixOf p).reverse

/-! ### Children -/

theorem mem_children_iff {d : Document} {p q : Path} :
    q ∈ d.children p ↔ ∃ i, i < (d.below p).length ∧ q = p ++ [i] := by
  simp only [children, List.mem_map, List.mem_range]
  exact ⟨fun ⟨i, h, e⟩ => ⟨i, h, e.symm⟩, fun ⟨i, h, e⟩ => ⟨i, h, e.symm⟩⟩

/-- The other way round this does not hold: a path with the parent of a node may lead nowhere. -/
theorem parent?_of_mem_children {d : Document} {p q : Path} (h : q ∈ d.children p) :
    parent? q = some p := by
  obtain ⟨i, -, rfl⟩ := mem_children_iff.1 h
  cases p with
  | nil => rfl
  | cons j p =>
    have : parent? ((j :: p) ++ [i]) = some ((j :: p) ++ [i]).dropLast := rfl
    rw [this, List.dropLast_concat]

end Document

end TreeQuery
