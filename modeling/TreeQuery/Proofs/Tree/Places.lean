import TreeQuery.NodeSet.Traversal

/-!
# Places in a tree

What lies below, above and beside a node, told from the paths alone once it is known that the nodes
exist: a node lies below another if its path goes on from the other's, and beside it if the two
differ in the last place only.

Main statements: `mem_descendants_iff`, `mem_children_iff_parent?` and `mem_laterSiblings_iff`.
-/

namespace TreeQuery

/-- What every document tree keeps to: only elements contain nodes, and no element has two
attributes of one name. -/
structure Document.IsTree (d : Document) : Prop where
  leaves {p : Path} {i : Nat} : (d.label? (p ++ [i])).isSome = true → p = [] ∨ d.isElement p = true
  attributes {p : Path} {l : Label} : d.label? p = some l → l.attributes.Pairwise
    fun a b => ¬ (a.name.uri = b.name.uri ∧ a.name.localPart = b.name.localPart)

namespace Forest

/-- Whether only elements contain anything, and attributes of one element differ in their names. -/
def isProper : Forest → Bool
  | nil => true
  | cons l c r =>
    (l.isElement || c = nil) && decide (l.attributes.Pairwise
      fun a b => ¬ (a.name.uri = b.name.uri ∧ a.name.localPart = b.name.localPart)) &&
      c.isProper && r.isProper

def elementsContain : Forest → Bool
  | nil => true
  | cons l c r => (l.isElement || c = nil) && c.elementsContain && r.elementsContain

/-! A forest keeps to a rule if all its trees do, and then so does everything below it. The rules
are decided for the forest and used for single places, which lie at the end of a path through it. -/

theorem elementsContain_of_isProper {f : Forest} (h : f.isProper = true) :
    f.elementsContain = true := by
  induction f with
  | nil => rfl
  | cons l c r ihc ihr =>
    simp only [isProper, Bool.and_eq_true] at h
    rw [elementsContain, h.1.1.1, ihc h.1.2, ihr h.2]
    rfl

/-- A property that passes on to what a tree contains passes on to everything below. -/
theorem of_below? {P : Forest → Prop}
    (htree : ∀ {f c : Forest} {l : Label} {i : Nat}, P f → f.tree? i = some (l, c) → P c)
    {f g : Forest} {p : Path} (hf : P f) (h : f.below? p = some g) : P g := by
  induction p generalizing f with
  | nil =>
    cases h
    exact hf
  | cons i p ih =>
    rw [below?_cons, Option.bind_eq_some_iff] at h
    obtain ⟨⟨l, c⟩, ht, h⟩ := h
    exact ih (htree hf ht) h

/-- A tree of such a forest. -/
theorem elementsContain_of_tree? {f c : Forest} {l : Label} {i : Nat}
    (hf : f.elementsContain = true) (h : f.tree? i = some (l, c)) :
    (l.isElement = true ∨ c = nil) ∧ c.elementsContain = true := by
  induction f generalizing i with
  | nil => cases h
  | cons m e r _ ih =>
    simp only [elementsContain, Bool.and_eq_true, Bool.or_eq_true, decide_eq_true_eq] at hf
    cases i with
    | zero =>
      cases h
      exact ⟨hf.1.1, hf.1.2⟩
    | succ i => exact ih hf.2 h

/-- What lies below a place in it. -/
theorem elementsContain_of_below? {f g : Forest} {p : Path} (hf : f.elementsContain = true)
    (h : f.below? p = some g) : g.elementsContain = true :=
  of_below? (P := fun f => f.elementsContain = true)
    (fun hf ht => (elementsContain_of_tree? hf ht).2) hf h

/-- A tree of a proper forest is proper, and its label keeps to the rules. -/
theorem isProper_of_tree? {f c : Forest} {l : Label} {i : Nat} (hf : f.isProper = true)
    (h : f.tree? i = some (l, c)) : (l.isElement = true ∨ c = nil) ∧ l.attributes.Pairwise
      (fun a b => ¬ (a.name.uri = b.name.uri ∧ a.name.localPart = b.name.localPart)) ∧
        c.isProper = true := by
  induction f generalizing i with
  | nil => cases h
  | cons m e r _ ih =>
    simp only [isProper, Bool.and_eq_true, Bool.or_eq_true, decide_eq_true_eq] at hf
    cases i with
    | zero =>
      cases h
      exact ⟨hf.1.1.1, hf.1.1.2, hf.1.2⟩
    | succ i => exact ih hf.2 h

theorem isProper_of_below? {f g : Forest} {p : Path} (hf : f.isProper = true)
    (h : f.below? p = some g) : g.isProper = true :=
  of_below? (P := fun f => f.isProper = true) (fun hf ht => (isProper_of_tree? hf ht).2.2) hf h

/-- To go down a path in two parts. -/
theorem below?_append (f : Forest) (p q : Path) :
    f.below? (p ++ q) = (f.below? p).bind (·.below? q) := by
  induction p generalizing f with
  | nil => rfl
  | cons i p ih =>
    rw [List.cons_append, below?_cons, below?_cons]
    cases f.tree? i with
    | none => rfl
    | some t => exact ih t.2

/-- The enumeration of a forest is in document order. -/
theorem pairwise_before_pathsFrom (f : Forest) (i : Nat) :
    (f.pathsFrom i).Pairwise fun p q => Path.before p q = true := by
  induction f generalizing i with
  | nil => exact .nil
  | cons l c r ihc ihr =>
    have hlater {q : Path} (h : q ∈ r.pathsFrom (i + 1)) : ∃ j t, i < j ∧ q = j :: t := by
      obtain ⟨j, t, rfl, -⟩ := (mem_pathsFrom_iff r (i + 1) q).1 h
      exact ⟨_, t, by omega, rfl⟩
    rw [pathsFrom, List.pairwise_append, List.pairwise_cons, List.pairwise_map]
    -- The first node comes before what is below it, that is in order, and all of it comes before
    -- the later trees.
    refine ⟨⟨?_, ?_⟩, ihr (i + 1), ?_⟩
    · intro q hq
      obtain ⟨t, ht, rfl⟩ := List.mem_map.1 hq
      obtain ⟨j, u, rfl, -⟩ := (mem_pathsFrom_iff c 0 t).1 ht
      simp [Path.before]
    · exact (ihc 0).imp fun h => by simp [Path.before, h]
    · intro p hp q hq
      obtain ⟨j, t, hj, rfl⟩ := hlater hq
      have hhead : ∃ u, p = i :: u := by
        rcases List.mem_cons.1 hp with rfl | hp
        · exact ⟨[], rfl⟩
        · obtain ⟨u, -, rfl⟩ := List.mem_map.1 hp
          exact ⟨u, rfl⟩
      obtain ⟨u, rfl⟩ := hhead
      simp [Path.before, hj]

/-- There are as many trees as the forest is long. -/
theorem isSome_tree? (f : Forest) (i : Nat) : (f.tree? i).isSome = true ↔ i < f.length := by
  induction f generalizing i with
  | nil => simp [tree?, length]
  | cons l c r _ ih =>
    cases i with
    | zero => simp [tree?, length]
    | succ i => simp [tree?, length, ih]

end Forest

namespace Document

section

variable {d : Document} {p q : Path} {i : Nat}

theorem isSome_of_isElement (h : d.isElement p = true) : (d.label? p).isSome = true := by
  rw [isElement] at h
  cases hl : d.label? p with
  | none =>
    rw [hl] at h
    cases h
  | some l => rfl

theorem label?_append (d : Document) (p : Path) (h : q ≠ []) :
    d.label? (p ++ q) = (d.below p).label? q := by
  have hnil : Forest.nil.label? q = none := by
    cases q with
    | nil => exact absurd rfl h
    | cons j r => cases r <;> rfl
  rw [label?, Forest.label?_append d.content p h, below]
  cases d.content.below? p with
  | none => exact hnil.symm
  | some f => rfl

theorem isSome_label?_concat (d : Document) (p : Path) (i : Nat) :
    (d.label? (p ++ [i])).isSome = true ↔ i < (d.below p).length := by
  rw [label?_append d p (by simp), Forest.label?_singleton, Option.isSome_map,
    Forest.isSome_tree?]

/-! ## Where nodes exist

Paths are lists of numbers, and most of them lead nowhere. A node exists where a path leads to a
label. -/

/-- The nodes are listed. -/
theorem mem_content_paths_iff : p ∈ d.content.paths ↔ (d.label? p).isSome = true := by
  rw [Forest.paths, Forest.mem_pathsFrom_iff]
  constructor
  · rintro ⟨j, q, rfl, h⟩
    rwa [Nat.zero_add]
  · intro h
    cases p with
    | nil => cases h
    | cons j q => exact ⟨j, q, by simp, h⟩

/-- So are the elements. -/
theorem mem_elements_iff : p ∈ d.elements ↔ d.isElement p = true := by
  rw [elements, List.mem_filter, mem_content_paths_iff]
  exact ⟨And.right, fun h => ⟨isSome_of_isElement h, h⟩⟩

theorem pairwise_before_elements (d : Document) :
    d.elements.Pairwise fun p q => Path.before p q = true :=
  (Forest.pairwise_before_pathsFrom d.content 0).filter _

/-! ## Below and above

Both are about one path beginning another. The list of what is below is made by going down, and that
of what is above by taking the path apart from its end. -/

/-- What lies below a node are the nodes that it lies above. -/
theorem mem_descendants_iff (hq : (d.label? q).isSome = true) :
    q ∈ d.descendants p ↔ p ∈ Path.ancestors q := by
  rw [descendants, List.mem_map, Path.mem_ancestors_iff]
  constructor
  · rintro ⟨r, hr, rfl⟩
    refine ⟨List.prefix_append p r, fun h => ?_⟩
    rw [List.self_eq_append_right] at h
    subst h
    rw [Forest.paths, Forest.mem_pathsFrom_iff] at hr
    obtain ⟨j, t, h, -⟩ := hr
    cases h
  · rintro ⟨⟨r, rfl⟩, hne⟩
    have hr : r ≠ [] := by
      rintro rfl
      simp at hne
    rw [label?_append d p hr] at hq
    refine ⟨r, ?_, rfl⟩
    rw [Forest.paths, Forest.mem_pathsFrom_iff]
    cases r with
    | nil => exact absurd rfl hr
    | cons j t => exact ⟨j, t, by simp, hq⟩

theorem isSome_of_mem_descendants (h : q ∈ d.descendants p) : (d.label? q).isSome = true := by
  obtain ⟨r, hr, rfl⟩ := List.mem_map.1 h
  rw [Forest.paths, Forest.mem_pathsFrom_iff] at hr
  obtain ⟨j, t, rfl, hr⟩ := hr
  rw [label?_append d p (by simp), Nat.zero_add]
  exact hr

/-- A path is that of the document or has a last place. -/
theorem eq_nil_or_concat (p : Path) : p = [] ∨ ∃ r i, p = r ++ [i] := by
  rcases List.eq_nil_or_concat p with h | ⟨r, i, h⟩
  · exact .inl h
  · exact .inr ⟨r, i, by simpa using h⟩

/-- Without its last place a path leads to the parent. -/
theorem parent?_concat (p : Path) (i : Nat) : parent? (p ++ [i]) = some p := by
  cases h : p ++ [i] with
  | nil => simp at h
  | cons j t => rw [parent?, ← h, List.dropLast_concat]

theorem label?_concat (d : Document) (p : Path) (i : Nat) :
    d.label? (p ++ [i]) = (d.content.below? p).bind fun f => (f.tree? i).map (·.1) :=
  Forest.label?_append d.content p (List.cons_ne_nil i [])

/-- Where only elements contain anything, what a node lies in is an element. -/
theorem leaves_of_elementsContain (h : d.content.elementsContain = true)
    (hi : (d.label? (p ++ [i])).isSome = true) : p = [] ∨ d.isElement p = true := by
  obtain rfl | ⟨r, j, rfl⟩ := eq_nil_or_concat p
  · exact .inl rfl
  · obtain ⟨l, hl⟩ := Option.isSome_iff_exists.1 hi
    rw [label?_concat, Option.bind_eq_some_iff] at hl
    obtain ⟨c, hc, hl⟩ := hl
    rw [Forest.below?_append, Option.bind_eq_some_iff] at hc
    obtain ⟨f, hf, hc⟩ := hc
    rw [Forest.below?_cons, Option.bind_eq_some_iff] at hc
    obtain ⟨⟨m, c'⟩, ht, hc⟩ := hc
    obtain rfl : c' = c := by simpa [Forest.below?_nil] using hc
    have hm : d.label? (r ++ [j]) = some m := by
      rw [label?_concat, hf, Option.bind_some, ht]
      rfl
    -- The tree at the place is an element, or it has nothing in it.
    rcases (Forest.elementsContain_of_tree? (Forest.elementsContain_of_below? h hf) ht).1 with
      helement | rfl
    · rw [isElement, hm]
      exact .inr helement
    · cases hl

/-- A forest whose nodes keep to the rules makes a document tree. -/
theorem isTree_of_isProper (h : d.content.isProper = true) : d.IsTree := by
  constructor
  · exact leaves_of_elementsContain (Forest.elementsContain_of_isProper h)
  · intro p l hl
    obtain rfl | ⟨r, i, rfl⟩ := eq_nil_or_concat p
    · cases hl
    · rw [label?_concat, Option.bind_eq_some_iff] at hl
      obtain ⟨f, hf, hl⟩ := hl
      obtain ⟨⟨m, c⟩, ht, rfl⟩ := Option.map_eq_some_iff.1 hl
      exact (Forest.isProper_of_tree? (Forest.isProper_of_below? h hf) ht).2.1

/-- The children of a node are the nodes that it is the parent of. -/
theorem mem_children_iff_parent? (hq : (d.label? q).isSome = true) :
    q ∈ d.children p ↔ parent? q = some p := by
  refine ⟨parent?_of_mem_children, fun h => ?_⟩
  rcases eq_nil_or_concat q with rfl | ⟨r, i, rfl⟩
  · cases h
  · rw [parent?_concat] at h
    obtain rfl : r = p := by simpa using h
    exact mem_children_iff.2 ⟨i, (isSome_label?_concat d r i).1 hq, rfl⟩

theorem isSome_of_mem_children (h : q ∈ d.children p) : (d.label? q).isSome = true := by
  obtain ⟨i, hi, rfl⟩ := mem_children_iff.1 h
  exact (isSome_label?_concat d p i).2 hi

/-! ## Beside

Siblings share all but the last place of their paths, so that everything about them is about the
order of two numbers. -/

/-- Later siblings are the children of the parent behind the place. -/
theorem laterSiblings_concat (d : Document) (p : Path) (i : Nat) :
    d.laterSiblings (p ++ [i]) = (d.children p).drop (i + 1) := by
  rw [laterSiblings, List.getLast?_concat, List.dropLast_concat]

/-- Earlier ones are those in front of it, the nearest first. -/
theorem earlierSiblings_concat (d : Document) (p : Path) (i : Nat) :
    d.earlierSiblings (p ++ [i]) = ((d.children p).take i).reverse := by
  rw [earlierSiblings, List.getLast?_concat, List.dropLast_concat]

theorem mem_laterSiblings_concat : q ∈ d.laterSiblings (p ++ [i]) ↔
    ∃ j, i < j ∧ j < (d.below p).length ∧ q = p ++ [j] := by
  rw [laterSiblings_concat, children, ← List.map_drop, List.range_eq_range', List.drop_range',
    List.mem_map]
  constructor
  · rintro ⟨j, hj, rfl⟩
    rw [List.mem_range'_1] at hj
    exact ⟨j, by omega, by omega, rfl⟩
  · rintro ⟨j, hi, hj, rfl⟩
    exact ⟨j, by rw [List.mem_range'_1]; omega, rfl⟩

theorem mem_earlierSiblings_concat : q ∈ d.earlierSiblings (p ++ [i]) ↔
    ∃ j, j < i ∧ j < (d.below p).length ∧ q = p ++ [j] := by
  rw [earlierSiblings_concat, List.mem_reverse, children, ← List.map_take, List.take_range,
    List.mem_map]
  constructor
  · rintro ⟨j, hj, rfl⟩
    rw [List.mem_range] at hj
    exact ⟨j, by omega, by omega, rfl⟩
  · rintro ⟨j, hi, hj, rfl⟩
    exact ⟨j, by rw [List.mem_range]; omega, rfl⟩

/-- A node is later than those that are earlier than it. -/
theorem mem_laterSiblings_iff (hq : (d.label? q).isSome = true) :
    q ∈ d.laterSiblings p ↔ p ∈ d.earlierSiblings q := by
  rcases eq_nil_or_concat q with rfl | ⟨r, j, rfl⟩
  · cases hq
  have hj := (isSome_label?_concat d r j).1 hq
  rcases eq_nil_or_concat p with rfl | ⟨s, i, rfl⟩
  · constructor
    · intro h
      cases h
    · intro h
      obtain ⟨k, -, -, h⟩ := mem_earlierSiblings_concat.1 h
      simp at h
  · rw [mem_laterSiblings_concat, mem_earlierSiblings_concat]
    constructor
    · rintro ⟨k, hik, hk, h⟩
      obtain ⟨rfl, hkj⟩ := List.append_inj' h rfl
      obtain rfl : j = k := by simpa using hkj
      exact ⟨i, hik, by omega, rfl⟩
    · rintro ⟨k, hkj, hk, h⟩
      obtain ⟨rfl, hik⟩ := List.append_inj' h rfl
      obtain rfl : i = k := by simpa using hik
      exact ⟨j, hkj, hj, rfl⟩

theorem isSome_of_mem_laterSiblings (h : q ∈ d.laterSiblings p) :
    (d.label? q).isSome = true := by
  rcases eq_nil_or_concat p with rfl | ⟨r, i, rfl⟩
  · cases h
  · obtain ⟨j, -, hj, rfl⟩ := mem_laterSiblings_concat.1 h
    exact (isSome_label?_concat d r j).2 hj

/-! ## The elements beside

The nearest element on either side is the first that is found when the siblings are gone through in
the direction away from the node. Between the two there may be nodes that are no elements. -/

/-- Found from the end is the last that has the property. -/
theorem find?_reverse_range {T : Nat → Bool} {n k : Nat} :
    (List.range n).reverse.find? T = some k ↔
      k < n ∧ T k = true ∧ ∀ j, k < j → j < n → T j = false := by
  induction n with
  | zero => simp
  | succ n ih =>
    rw [List.range_succ, List.reverse_append, List.reverse_singleton, List.singleton_append,
      List.find?_cons]
    -- The last place is looked at first.
    cases hn : T n with
    | true =>
      constructor
      · intro h
        cases h
        exact ⟨Nat.lt_succ_self _, hn, fun j h1 h2 => by omega⟩
      · rintro ⟨hk, hT, hlater⟩
        rcases Nat.lt_succ_iff_lt_or_eq.1 hk with h | rfl
        · rw [hlater n h (Nat.lt_succ_self n)] at hn
          cases hn
        · rfl
    | false =>
      simp only [ih]
      constructor
      · rintro ⟨hk, hT, hlater⟩
        refine ⟨Nat.lt_succ_of_lt hk, hT, fun j h1 h2 => ?_⟩
        rcases Nat.lt_succ_iff_lt_or_eq.1 h2 with h | rfl
        · exact hlater j h1 h
        · exact hn
      · rintro ⟨hk, hT, hlater⟩
        refine ⟨?_, hT, fun j h1 h2 => hlater j h1 (Nat.lt_succ_of_lt h2)⟩
        rcases Nat.lt_succ_iff_lt_or_eq.1 hk with h | rfl
        · exact h
        · rw [hn] at hT
          cases hT

/-- The element in front is at the last place with one. -/
theorem previousElement?_concat {s : Path} (hp : (d.label? (p ++ [i])).isSome = true) :
    d.previousElement? (p ++ [i]) = some s ↔ ∃ k, s = p ++ [k] ∧ k < i ∧
      d.isElement (p ++ [k]) = true ∧ ∀ j, k < j → j < i → d.isElement (p ++ [j]) = false := by
  have hi := (isSome_label?_concat d p i).1 hp
  rw [previousElement?, earlierSiblings_concat, children, ← List.map_take, List.take_range,
    Nat.min_eq_left (Nat.le_of_lt hi), ← List.map_reverse, List.find?_map, Option.map_eq_some_iff]
  constructor
  · rintro ⟨k, hk, rfl⟩
    exact ⟨k, rfl, find?_reverse_range.1 hk⟩
  · rintro ⟨k, rfl, hk⟩
    exact ⟨k, find?_reverse_range.2 hk, rfl⟩

/-- The next element is at the first place with one. -/
theorem nextElement?_concat {s : Path} : d.nextElement? (p ++ [i]) = some s ↔
    ∃ k, s = p ++ [k] ∧ i < k ∧ d.isElement (p ++ [k]) = true ∧
      ∀ j, i < j → j < k → d.isElement (p ++ [j]) = false := by
  rw [nextElement?, laterSiblings_concat, children, ← List.map_drop, List.range_eq_range',
    List.drop_range', List.find?_map, Option.map_eq_some_iff]
  constructor
  · rintro ⟨k, hk, rfl⟩
    rw [List.find?_range'_eq_some] at hk
    obtain ⟨hT, hk, hj⟩ := hk
    rw [List.mem_range'_1] at hk
    refine ⟨k, rfl, by omega, hT, fun j h1 h2 => ?_⟩
    simpa using hj j (by omega) h2
  · rintro ⟨k, rfl, hk, hT, hj⟩
    have hlen := (isSome_label?_concat d p k).1 (isSome_of_isElement hT)
    refine ⟨k, ?_, rfl⟩
    rw [List.find?_range'_eq_some]
    refine ⟨hT, by rw [List.mem_range'_1]; omega, fun j h1 h2 => ?_⟩
    simpa using hj j (by omega) h2

/-- An element is next to another if that is the one in front of it. -/
theorem nextElement?_eq_some_iff {s : Path} (hs : d.isElement s = true)
    (hp : d.isElement p = true) : d.nextElement? s = some p ↔ d.previousElement? p = some s := by
  obtain rfl | ⟨r, k, rfl⟩ := eq_nil_or_concat s
  · cases hs
  obtain rfl | ⟨t, i, rfl⟩ := eq_nil_or_concat p
  · cases hp
  rw [nextElement?_concat, previousElement?_concat (isSome_of_isElement hp)]
  constructor
  · rintro ⟨j, h, hlt, -, hbetween⟩
    obtain ⟨rfl, h⟩ := List.append_inj' h rfl
    obtain rfl : i = j := by simpa using h
    exact ⟨k, rfl, hlt, hs, hbetween⟩
  · rintro ⟨j, h, hlt, -, hbetween⟩
    obtain ⟨rfl, h⟩ := List.append_inj' h rfl
    obtain rfl : k = j := by simpa using h
    exact ⟨i, rfl, hlt, hp, hbetween⟩

/-- The element in front of a later sibling is the element that it is later than, or later than
that itself. -/
theorem eq_or_mem_laterSiblings {r s : Path} (hr : d.isElement r = true)
    (hp : p ∈ d.laterSiblings r) (hs : d.previousElement? p = some s) :
    s = r ∨ s ∈ d.laterSiblings r := by
  have hsome := isSome_of_mem_laterSiblings hp
  obtain rfl | ⟨t, i, rfl⟩ := eq_nil_or_concat r
  · cases hr
  obtain ⟨j, hij, -, rfl⟩ := mem_laterSiblings_concat.1 hp
  obtain ⟨k, rfl, hkj, hk, hbetween⟩ := (previousElement?_concat hsome).1 hs
  by_cases hki : k < i
  · rw [hbetween i hki hij] at hr
    cases hr
  · by_cases heq : k = i
    · exact .inl (by rw [heq])
    · refine .inr (mem_laterSiblings_concat.2 ⟨k, by omega, ?_, rfl⟩)
      exact (isSome_label?_concat d t k).1 (isSome_of_isElement hk)

end

end Document

end TreeQuery
