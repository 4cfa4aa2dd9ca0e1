import TreeQuery.Proofs.Matching.Conditions

/-!
# What chains find

The steps of a chain, taken one after another from where it begins, find the elements that match it.
A step goes forward from all matches of the chain so far, while matching looks back from one
element; the two agree for children, for everything below, and for later siblings.

A chain is local if each of its links is told from the element and its place alone: without
positions among what has been matched, and without the next sibling.

Main statement: `Chain.finds`.
-/

namespace TreeQuery

open XPath XPath.Expr

/-! What is not local: a word with white space in it, which the text of the words may hold across
two words, a position among what has been found, and the next sibling, which the step does not
single out. Inside `:not` a chain has to be a single element, as its last step begins at the element
itself. -/

/-- Whether a word that is asked for has no white space in it. -/
def AttributeTest.isLocal (t : AttributeTest) : Bool :=
  t.comparison.all fun c => c.1 != .word || c.2.all (!Text.isSpace ·)

namespace Pattern

def Chain.isSingle : Chain → Bool
  | .start _ _ => true
  | .link _ _ _ => false

mutual

def Condition.isLocal : Condition → Bool
  | .static s => !s.isPositional
  | .contains _ => true
  | .not cs => chainsLocal cs
  | .has rs => relativesLocal rs

def chainsLocal : List Chain → Bool
  | [] => true
  | c :: r => c.isSingle && c.isLocal && chainsLocal r

def relativesLocal : List Relative → Bool
  | [] => true
  | .mk _ c :: r => c.isLocal && relativesLocal r

def conditionsLocal : List Condition → Bool
  | [] => true
  | c :: r => c.isLocal && conditionsLocal r

def Element.isLocal : Element → Bool
  | .mk _ tests conditions => tests.all AttributeTest.isLocal && conditionsLocal conditions

def Chain.isLocal : Chain → Bool
  | .start _ e => e.isLocal
  | .link b combinator e => combinator != some .adjacent && b.isLocal && e.isLocal

end

theorem conditionsLocal_cons (c : Condition) (r : List Condition) :
    conditionsLocal (c :: r) = (c.isLocal && conditionsLocal r) := rfl

section

variable {d : Document} {f : Focus} {start : Expr} {a : Axis} {es : List Expr}
  {scope S : Path → Bool} {Ts : List (Path → Bool)} {p : Path}

/-! ## One step

A step is seen as a place and a test: the place is which elements the axis reaches from the nodes
that have been found so far, the test is the name and the predicates. `Reaches` is the place alone.
It is said of elements only, as other nodes are never looked for. -/

/-- That the nodes to start from have on an axis, of all elements, just those in a place. -/
def Reaches (d : Document) (f : Focus) (start : Expr) (a : Axis) (scope : Path → Bool) : Prop :=
  ∃ ns, eval d f start = some (.nodes ns) ∧ ∀ p, d.isElement p = true →
    (ns.any fun n => (n.along d a).contains (.tree p)) = scope p

/-- The place may be described in another way. -/
theorem Reaches.congr {scope' : Path → Bool} (h : Reaches d f start a scope)
    (hscope : ∀ p, d.isElement p = true → scope p = scope' p) : Reaches d f start a scope' := by
  obtain ⟨ns, hns, hreach⟩ := h
  exact ⟨ns, hns, fun p hp => (hreach p hp).trans (hscope p hp)⟩

/-- A local condition does not ask for a position among what has been found. -/
theorem Condition.isResultScoped_of_isLocal {c : Condition} (h : c.isLocal = true) :
    c.isResultScoped = false := by
  cases c with
  | static s =>
    have h : (!s.isPositional) = true := h
    cases s <;> first | rfl | cases h
  | contains | not | has => rfl

theorem isResultScoped_of_conditionsLocal {cs : List Condition} (h : conditionsLocal cs = true) :
    cs.any Condition.isResultScoped = false := by
  induction cs with
  | nil => rfl
  | cons c r ih =>
    rw [conditionsLocal_cons, Bool.and_eq_true] at h
    rw [List.any_cons, Condition.isResultScoped_of_isLocal h.1, ih h.2]
    rfl

theorem conditionsHold_eq (d : Document) (cs : List Condition) (p : Path) :
    conditionsHold d cs p = cs.all (·.holds d p) := by
  induction cs with
  | nil => rfl
  | cons c r ih =>
    rw [List.all_cons, ← ih]
    rfl

theorem Element.holds_mk (d : Document) (tag : Text) (tests : List AttributeTest)
    (conditions : List Condition) (p : Path) : (Element.mk tag tests conditions).holds d p =
      (d.isElement p && d.hasTag tag p && tests.all (·.holds d p) &&
        conditionsHold d conditions p) := rfl

theorem Element.isElement_of_holds {e : Element} (h : e.holds d p = true) :
    d.isElement p = true := by
  obtain ⟨tag, tests, conditions⟩ := e
  rw [Element.holds_mk] at h
  simp only [Bool.and_eq_true] at h
  exact h.1.1.1

/-- A local attribute test is true of the elements that pass it. -/
theorem AttributeTest.truth_of_isLocal (hd : d.IsTree) {t : AttributeTest}
    (h : t.isLocal = true) : Truth d t.expr (t.holds d) := by
  refine AttributeTest.truth hd fun w hw c hc => ?_
  rw [AttributeTest.isLocal, hw] at h
  simpa using List.all_eq_true.1 (show w.all (!Text.isSpace ·) = true by simpa using h) c hc

/-- A step finds, of the elements it reaches, those that have the name and satisfy the predicates.
-/
theorem Reaches.finds (hs : Reaches d f start a scope) (ha : a ≠ .attributes) (tag : Text)
    (hes : List.Forall₂ (Truth d) es Ts) : Finds d f (.step start a (testOf tag) es) fun p =>
      scope p && (d.hasTag tag p && Ts.all (· p)) := by
  obtain ⟨ns, hns, hreach⟩ := hs
  rw [Finds, eval_step tag hns ha hes]
  refine congrArg (fun ns => some (Value.nodes ns)) (Document.nodesWhere_congr fun p hp => ?_)
  rw [hreach p hp, Bool.and_assoc]

/-- The step to an element finds, of the elements it reaches, those that are as it is asked for. -/
theorem Element.finds (hd : d.IsTree) {e : Element} (he : e.isLocal = true)
    (hconditions : List.Forall₂ (Truth d) (e.conditions.map Condition.expr)
      (e.conditions.map (·.holds d)))
    (hs : Reaches d f start a scope) (ha : a ≠ .attributes) :
    Finds d f (e.stretch start a []).expr fun p => scope p && e.holds d p := by
  obtain ⟨tag, tests, conditions⟩ := e
  have he : (tests.all AttributeTest.isLocal && conditionsLocal conditions) = true := he
  rw [Bool.and_eq_true, List.all_eq_true] at he
  have htruth : List.Forall₂ (Truth d)
      (tests.map AttributeTest.expr ++ conditions.map Condition.expr)
      (tests.map (·.holds d) ++ conditions.map (·.holds d)) := by
    refine List.rel_append ?_ hconditions
    rw [List.forall₂_map_left_iff, List.forall₂_map_right_iff, List.forall₂_same]
    exact fun t ht => AttributeTest.truth_of_isLocal hd (he.1 t ht)
  -- Nothing is put in parentheses, so that all predicates are those of one step.
  have hstretch : ((Element.mk tag tests conditions).stretch start a []).expr =
      .step start a (testOf tag)
        (tests.map AttributeTest.expr ++ conditions.map Condition.expr) := by
    show (givenAll (.step start a (testOf tag) ([] ++ tests.map AttributeTest.expr))
      conditions).expr = _
    rw [givenAll_step (isResultScoped_of_conditionsLocal he.2)]
    rfl
  rw [hstretch]
  refine (hs.finds ha tag htruth).congr fun p hp => ?_
  rw [Element.holds_mk, hp, conditionsHold_eq]
  simp [Bool.and_assoc, Function.comp_def]

/-! ## From one step to the next

A step goes forward from everything that has been found, and matching looks back from one element.
The two meet in one fact: that the way forward from `q` leads to `p` if and only if the way back
from `p` leads to `q`. Each combinator gives such a pair of ways. -/

theorem mem_map_tree {l : List Path} : .tree p ∈ l.map Node.tree ↔ p ∈ l := by
  rw [List.mem_map]
  constructor
  · rintro ⟨q, hq, heq⟩
    cases heq
    exact hq
  · intro h
    exact ⟨p, h, rfl⟩

theorem contains_map_tree (l : List Path) (p : Path) :
    (l.map Node.tree).contains (.tree p) = l.contains p := by
  rw [Bool.eq_iff_iff, List.contains_iff_mem, List.contains_iff_mem, mem_map_tree]

/-- Some node that has been found has a property if some element with the condition has it. -/
theorem any_nodesWhere (d : Document) (S : Path → Bool) (T : Node → Bool) :
    (d.nodesWhere S).any T = d.elements.any fun q => S q && T (.tree q) := by
  rw [Bool.eq_iff_iff, List.any_eq_true, List.any_eq_true]
  constructor
  · rintro ⟨n, hn, hT⟩
    obtain ⟨q, rfl, hq, hS⟩ := Document.mem_nodesWhere.1 hn
    exact ⟨q, Document.mem_elements_iff.2 hq, by rw [hS, hT]; rfl⟩
  · rintro ⟨q, hq, h⟩
    rw [Bool.and_eq_true] at h
    exact ⟨_, Document.tree_mem_nodesWhere.2 ⟨Document.mem_elements_iff.1 hq, h.1⟩, h.2⟩

/-- A step from what has been found reaches the elements from which the way back leads to something
found. -/
theorem reaches_of_finds {e : Expr} {ahead back : Path → List Path} (h : Finds d f e S)
    (hS : ∀ p, S p = true → d.isElement p = true)
    (ha : ∀ q, Node.alongFrom d a q = (ahead q).map .tree)
    (hback : ∀ p q, d.isElement p = true → (p ∈ ahead q ↔ q ∈ back p)) :
    Reaches d f e a fun p => (back p).any S := by
  refine ⟨_, h, fun p hp => ?_⟩
  have halong (q : Path) : ((Node.tree q).along d a).contains (.tree p) = (back p).contains q := by
    rw [Node.along, ha, contains_map_tree, Bool.eq_iff_iff, List.contains_iff_mem,
      List.contains_iff_mem]
    exact hback p q hp
  rw [any_nodesWhere, Bool.eq_iff_iff, List.any_eq_true, List.any_eq_true]
  constructor
  · rintro ⟨q, -, hq⟩
    rw [halong, Bool.and_eq_true, List.contains_iff_mem] at hq
    exact ⟨q, hq.2, hq.1⟩
  · rintro ⟨q, hq, hSq⟩
    refine ⟨q, Document.mem_elements_iff.2 (hS q hSq), ?_⟩
    rw [halong, Bool.and_eq_true, List.contains_iff_mem]
    exact ⟨hSq, hq⟩

/-- Children are reached from parents. -/
theorem reaches_children {e : Expr} (h : Finds d f e S)
    (hS : ∀ p, S p = true → d.isElement p = true) :
    Reaches d f e .child fun p => (Document.parent? p).any S := by
  have hreach := reaches_of_finds (a := .child) h hS (fun _ => rfl) fun p q hp =>
    (Document.mem_children_iff_parent? (Document.isSome_of_isElement hp)).trans
      Option.mem_toList.symm
  refine hreach.congr fun p _ => ?_
  cases Document.parent? p with
  | none => rfl
  | some q => exact Bool.or_false _

/-- Later siblings are reached from earlier ones. -/
theorem reaches_laterSiblings {e : Expr} (h : Finds d f e S)
    (hS : ∀ p, S p = true → d.isElement p = true) :
    Reaches d f e .followingSibling fun p => (d.earlierSiblings p).any S :=
  reaches_of_finds h hS (fun _ => rfl) fun _ _ hp =>
    Document.mem_laterSiblings_iff (Document.isSome_of_isElement hp)

/-! ## From anywhere below

A blank between two compounds is not one step but two: to everything below, with the nodes
themselves among it, and from there to the children. What is between may be any node in the first of
these steps, but only the document and elements have elements as children. -/

/-- What is above a child are the nodes whose path begins its parent's. -/
theorem mem_ancestors_concat {q r : Path} {i : Nat} : q ∈ Path.ancestors (r ++ [i]) ↔ q <+: r := by
  rw [Path.mem_ancestors_iff, List.prefix_concat_iff]
  constructor
  · rintro ⟨rfl | h, hne⟩
    · exact absurd rfl hne
    · exact h
  · intro h
    refine ⟨.inr h, ?_⟩
    rintro rfl
    have := h.length_le
    rw [List.length_append, List.length_singleton] at this
    omega

theorem mem_descendantOrSelf_iff {q r : Path} (hr : r = [] ∨ (d.label? r).isSome = true) :
    .tree r ∈ (Node.tree q).along d .descendantOrSelf ↔ q <+: r := by
  have halong : (Node.tree q).along d .descendantOrSelf =
      .tree q :: (d.descendants q).map .tree := rfl
  rw [halong, ← List.map_cons, mem_map_tree, List.mem_cons]
  rcases hr with rfl | hr
  · rw [List.prefix_nil, eq_comm, or_iff_left_iff_imp]
    intro h
    cases Document.isSome_of_mem_descendants h
  · rw [Document.mem_descendants_iff hr, Path.mem_ancestors_iff]
    constructor
    · rintro (rfl | h)
      · exact List.prefix_rfl
      · exact h.1
    · intro h
      by_cases heq : r = q
      · exact .inl heq
      · exact .inr ⟨h, fun h => heq h.symm⟩

/-- Below a node of the tree there are nodes of the tree only. -/
theorem exists_tree_of_descendantOrSelf {q : Path} {n : Node}
    (h : n ∈ (Node.tree q).along d .descendantOrSelf) : ∃ s, n = .tree s := by
  have halong : (Node.tree q).along d .descendantOrSelf =
      .tree q :: (d.descendants q).map .tree := rfl
  rw [halong, ← List.map_cons] at h
  obtain ⟨s, -, rfl⟩ := List.mem_map.1 h
  exact ⟨s, rfl⟩

/-- The document and its elements are nodes. -/
theorem passes_node (h : p = [] ∨ d.isElement p = true) :
    NodeTest.node.passes d a (.tree p) = true := by
  have hlabel : Node.label? d (.tree p) = d.label? p := rfl
  rw [NodeTest.passes, hlabel]
  rcases h with rfl | h
  · rfl
  · rw [Document.isElement] at h
    cases hl : d.label? p with
    | none => rfl
    | some l =>
      rw [hl] at h
      cases l with
      | element | text | comment | instruction => rfl
      | reference => cases h

/-- From some nodes and all that is below them, the steps to children reach the elements inside one
of the nodes: what an element stands in is always the document or an element. -/
theorem reaches_descend (hd : d.IsTree) {ns : List Node} (hs : eval d f start = some (.nodes ns))
    (hns : ∀ n ∈ ns, ∃ q, n = .tree q) :
    Reaches d f (descend start) .child fun p =>
      (Path.ancestors p).any fun q => ns.contains (.tree q) := by
  refine ⟨_, eval_descend hs, fun p hp => ?_⟩
  obtain rfl | ⟨r, i, rfl⟩ := Document.eq_nil_or_concat p
  · cases hp
  have hp := Document.isSome_of_isElement hp
  have hr : r = [] ∨ (d.label? r).isSome = true :=
    (hd.leaves hp).imp_right Document.isSome_of_isElement
  have hnode : NodeTest.node.passes d .descendantOrSelf (.tree r) = true :=
    passes_node (hd.leaves hp)
  -- An element is a child of one node only.
  have hchild (s : Path) :
      ((Node.tree s).along d .child).contains (.tree (r ++ [i])) = true ↔ s = r := by
    have halong : (Node.tree s).along d .child = (d.children s).map .tree := rfl
    rw [halong, contains_map_tree, List.contains_iff_mem, Document.mem_children_iff_parent? hp,
      Document.parent?_concat, Option.some_inj, eq_comm]
  rw [Bool.eq_iff_iff, List.any_eq_true, List.any_eq_true]
  constructor
  · rintro ⟨n, hn, hmem⟩
    obtain ⟨m, hm, hn⟩ := List.mem_flatMap.1 (Node.mem_ordered_iff.1 hn).2
    obtain ⟨q, rfl⟩ := hns m hm
    obtain ⟨s, rfl⟩ : ∃ s, n = .tree s := exists_tree_of_descendantOrSelf (List.mem_filter.1 hn).1
    obtain rfl := (hchild s).1 hmem
    refine ⟨q, mem_ancestors_concat.2 ?_, List.contains_iff_mem.2 hm⟩
    exact (mem_descendantOrSelf_iff hr).1 (List.mem_filter.1 hn).1
  · rintro ⟨q, hq, hmem⟩
    rw [mem_ancestors_concat] at hq
    refine ⟨.tree r, Node.mem_ordered_iff.2 ⟨Node.tree_mem_all.2 hr, ?_⟩, ?_⟩
    · refine List.mem_flatMap.2 ⟨_, List.contains_iff_mem.1 hmem, List.mem_filter.2 ⟨?_, hnode⟩⟩
      exact (mem_descendantOrSelf_iff hr).2 hq
    · exact (hchild r).2 rfl

/-- Elements inside what has been found. -/
theorem reaches_inside (hd : d.IsTree) {e : Expr} (h : Finds d f e S)
    (hS : ∀ p, S p = true → d.isElement p = true) :
    Reaches d f (descend e) .child fun p => (Path.ancestors p).any S := by
  have hnodes : ∀ n ∈ d.nodesWhere S, ∃ q, n = .tree q := by
    intro n hn
    obtain ⟨q, rfl, -⟩ := Document.mem_nodesWhere.1 hn
    exact ⟨q, rfl⟩
  refine (reaches_descend hd h hnodes).congr fun p _ => congrArg (Path.ancestors p).any ?_
  funext q
  rw [Bool.eq_iff_iff, List.contains_iff_mem, Document.tree_mem_nodesWhere]
  exact ⟨And.right, fun h => ⟨hS q h, h⟩⟩

/-- From the root every element is reached. -/
theorem reaches_anywhere (hd : d.IsTree) :
    Reaches d f (descend .root) .child fun _ => true := by
  refine (reaches_descend hd rfl fun n hn => ⟨[], List.mem_singleton.1 hn⟩).congr fun p hp => ?_
  rw [List.any_eq_true]
  refine ⟨[], Path.mem_ancestors_iff.2 ⟨List.nil_prefix, ?_⟩, by simp⟩
  rintro rfl
  cases hp

theorem reaches_self (p : Path) (position size : Nat) :
    Reaches d ⟨.tree p, position, size⟩ .here .self (· == p) := by
  refine ⟨_, rfl, fun q _ => ?_⟩
  rw [Bool.eq_iff_iff]
  simp [Node.along, Node.alongFrom]

/-- From an element, its children or all elements below it. -/
theorem reaches_within (direct : Bool) (p : Path) (position size : Nat) :
    Reaches d ⟨.tree p, position, size⟩ .here (if direct then .child else .descendant)
      (isWithin direct p) := by
  refine ⟨_, rfl, fun q hq => ?_⟩
  have hsome := Document.isSome_of_isElement hq
  rw [Bool.eq_iff_iff]
  cases direct with
  | true =>
    have halong : (Node.tree p).along d .child = (d.children p).map .tree := rfl
    simp only [if_true, List.any_cons, List.any_nil, Bool.or_false, halong, contains_map_tree,
      List.contains_iff_mem, Document.mem_children_iff_parent? hsome, isWithin, beq_iff_eq]
  | false =>
    have halong : (Node.tree p).along d .descendant = (d.descendants p).map .tree := rfl
    simp only [Bool.false_eq_true, if_false, List.any_cons, List.any_nil, Bool.or_false, halong,
      contains_map_tree, List.contains_iff_mem, Document.mem_descendants_iff hsome, isWithin]

end

/-! ## Chains and conditions

Chains hold elements, elements hold conditions and conditions hold chains, and the proof follows the
three. Inside `:has` a chain begins at the element that is tested, so that the place where its first
link has to be is a parameter of the induction. -/

section

variable {d : Document}

theorem Chain.isElement_of_holds {begins : Path → Bool} {p : Path} :
    ∀ {c : Chain}, c.holds d begins p = true → d.isElement p = true
  | .start _ e, h => e.isElement_of_holds (Bool.and_eq_true_iff.1 h).2
  | .link _ none e, h => e.isElement_of_holds (Bool.and_eq_true_iff.1 h).2
  | .link _ (some .child) e, h => e.isElement_of_holds (Bool.and_eq_true_iff.1 h).2
  | .link _ (some .sibling) e, h => e.isElement_of_holds (Bool.and_eq_true_iff.1 h).2
  | .link _ (some .adjacent) e, h => e.isElement_of_holds (Bool.and_eq_true_iff.1 h).2

/-- To match one of some chains is to match any of them. -/
theorem chainsHold_eq (d : Document) (cs : List Chain) (p : Path) :
    chainsHold d cs p = (cs.map fun c => c.holds d fun _ => true).any (· p) := by
  induction cs with
  | nil => rfl
  | cons c r ih =>
    rw [List.map_cons, List.any_cons, ← ih]
    rfl

def Relative.holds (d : Document) : Relative → Path → Bool
  | .mk direct c, p => d.elements.any (c.holds d (isWithin direct p))

theorem relativesHold_eq (d : Document) (rs : List Relative) (p : Path) :
    relativesHold d rs p = (rs.map (·.holds d)).any (· p) := by
  induction rs with
  | nil => rfl
  | cons r rs ih =>
    obtain ⟨direct, c⟩ := r
    rw [List.map_cons, List.any_cons, ← ih]
    rfl

/-- An expression that finds the context node where a test holds is true where it holds. -/
theorem truth_of_finds_self {e : Expr} {T : Path → Bool}
    (h : ∀ p position size, Finds d ⟨.tree p, position, size⟩ e fun q => (q == p) && T q) :
    Truth d e T := by
  refine (truth_of_finds fun p _ => h p).congr fun p hp => ?_
  rw [Bool.eq_iff_iff, List.any_eq_true]
  constructor
  · rintro ⟨q, -, hq⟩
    rw [Bool.and_eq_true, beq_iff_eq] at hq
    obtain ⟨rfl, hq⟩ := hq
    exact hq
  · intro hT
    exact ⟨p, Document.mem_elements_iff.2 hp, by rw [beq_self_eq_true, hT]; rfl⟩

theorem chainsLocal_cons (c : Chain) (r : List Chain) :
    chainsLocal (c :: r) = (c.isSingle && c.isLocal && chainsLocal r) := rfl

theorem relativesLocal_cons (direct : Bool) (c : Chain) (r : List Relative) :
    relativesLocal (.mk direct c :: r) = (c.isLocal && relativesLocal r) := rfl

theorem Element.isLocal_mk (tag : Text) (tests : List AttributeTest)
    (conditions : List Condition) : (mk tag tests conditions).isLocal =
      (tests.all AttributeTest.isLocal && conditionsLocal conditions) := rfl

theorem Chain.isLocal_link (b : Chain) (o : Option Combinator) (e : Element) :
    (link b o e).isLocal = (o != some .adjacent && b.isLocal && e.isLocal) := rfl

mutual

/-- A local condition is true of the elements that satisfy it. -/
theorem Condition.truth (hd : d.IsTree) :
    ∀ c : Condition, c.isLocal = true → Truth d c.expr (c.holds d)
  | .static s, h => by
    have h : (!s.isPositional) = true := h
    exact StaticPseudo.truth hd (by simpa using h)
  | .contains t, _ => truth_holdsText t
  | .not cs, h => by
    refine (truth_not (truth_anyOf (truth_selfExprs hd cs h))).congr fun p _ => ?_
    rw [← chainsHold_eq]
    rfl
  | .has rs, h => by
    refine (truth_anyOf (truth_relativeExprs hd rs h)).congr fun p _ => ?_
    rw [← relativesHold_eq]
    rfl

theorem truth_selfExprs (hd : d.IsTree) : ∀ cs : List Chain, chainsLocal cs = true →
    List.Forall₂ (Truth d) (selfExprs cs) (cs.map fun c => c.holds d fun _ => true)
  | [], _ => .nil
  | c :: r, h => by
    rw [chainsLocal_cons, Bool.and_eq_true, Bool.and_eq_true] at h
    refine .cons ?_ (truth_selfExprs hd r h.2)
    cases c with
    | start o e =>
      refine truth_of_finds_self fun p position size => ?_
      exact (Chain.start o e).finds hd h.1.2 (reaches_self p position size) nofun
    | link => cases h.1.1

theorem truth_relativeExprs (hd : d.IsTree) : ∀ rs : List Relative, relativesLocal rs = true →
    List.Forall₂ (Truth d) (relativeExprs rs) (rs.map (·.holds d))
  | [], _ => .nil
  | .mk direct c :: r, h => by
    rw [relativesLocal_cons, Bool.and_eq_true] at h
    refine .cons ?_ (truth_relativeExprs hd r h.2)
    refine truth_of_finds (S := fun p => c.holds d (isWithin direct p)) fun p _ position size => ?_
    exact c.finds hd h.1 (reaches_within direct p position size) (by cases direct <;> nofun)

theorem truth_conditions (hd : d.IsTree) : ∀ cs : List Condition, conditionsLocal cs = true →
    List.Forall₂ (Truth d) (cs.map Condition.expr) (cs.map (·.holds d))
  | [], _ => .nil
  | c :: r, h => by
    rw [conditionsLocal_cons, Bool.and_eq_true] at h
    exact .cons (c.truth hd h.1) (truth_conditions hd r h.2)

theorem Element.finds_of_isLocal (hd : d.IsTree) : ∀ (e : Element) {f : Focus} {start : Expr}
    {a : Axis} {scope : Path → Bool}, e.isLocal = true → Reaches d f start a scope →
    a ≠ .attributes → Finds d f (e.stretch start a []).expr fun p => scope p && e.holds d p
  | .mk tag tests conditions, _, _, _, _, he, hs, ha => by
    have hlocal := he
    rw [Element.isLocal_mk, Bool.and_eq_true] at he
    exact Element.finds hd hlocal (truth_conditions hd conditions he.2) hs ha

/-- The steps of a local chain find the elements that match it. -/
theorem Chain.finds (hd : d.IsTree) : ∀ (c : Chain) {f : Focus} {start : Expr} {a : Axis}
    {scope : Path → Bool}, c.isLocal = true → Reaches d f start a scope → a ≠ .attributes →
    Finds d f (c.stretch start a).expr (c.holds d scope)
  | .start o e, _, _, _, _, hc, hs, ha => e.finds_of_isLocal hd hc hs ha
  | .link b o e, f, start, a, scope, hc, hs, ha => by
    rw [Chain.isLocal_link, Bool.and_eq_true, Bool.and_eq_true] at hc
    have hb : Finds d f (b.stretch start a).expr (b.holds d scope) := b.finds hd hc.1.2 hs ha
    have helement (p : Path) (h : b.holds d scope p = true) : d.isElement p = true :=
      Chain.isElement_of_holds h
    cases o with
    | none => exact e.finds_of_isLocal hd hc.2 (reaches_inside hd hb helement) nofun
    | some o =>
      cases o with
      | child => exact e.finds_of_isLocal hd hc.2 (reaches_children hb helement) nofun
      | sibling => exact e.finds_of_isLocal hd hc.2 (reaches_laterSiblings hb helement) nofun
      | adjacent => exact absurd hc.1.1 (by decide)

end

/-! ## Patterns -/

theorem finds_union {f : Focus} {a b : Expr} {S T : Path → Bool} (ha : Finds d f a S)
    (hb : Finds d f b T) : Finds d f (.binary .union a b) fun p => S p || T p := by
  rw [Finds, eval_union ha hb]
  refine congrArg (fun ns => some (Value.nodes ns)) (Document.ordered_eq_nodesWhere ?_ ?_)
  · intro n hn
    rcases List.mem_append.1 hn with hn | hn <;>
    · obtain ⟨p, rfl, hp, -⟩ := Document.mem_nodesWhere.1 hn
      exact ⟨p, rfl, hp⟩
  · intro p hp
    rw [List.mem_append, Document.tree_mem_nodesWhere, Document.tree_mem_nodesWhere, hp,
      Bool.or_eq_true]
    simp

theorem finds_unions {f : Focus} {a : Expr} {es : List Expr} {S : Path → Bool}
    {Ss : List (Path → Bool)} (ha : Finds d f a S) (h : List.Forall₂ (Finds d f) es Ss) :
    Finds d f (es.foldl (.binary .union) a) fun p => S p || Ss.any (· p) := by
  induction h generalizing a S with
  | nil => simpa using ha
  | @cons e T es Ts he _ ih =>
    have := ih (finds_union ha he)
    simpa [Bool.or_assoc] using this

/-- The expression of a pattern finds what the path of one of its chains finds. -/
theorem finds_expr_of_forall {f : Focus} {p : Pattern} (hne : p ≠ [])
    {S : Chain → Path → Bool} (h : ∀ c ∈ p, Finds d f c.pathExpr (S c)) :
    Finds d f (expr p) fun q => p.any (S · q) := by
  cases p with
  | nil => exact absurd rfl hne
  | cons c r =>
    rw [List.forall_mem_cons] at h
    have hrest : List.Forall₂ (Finds d f) (r.map Chain.pathExpr) (r.map S) := by
      rw [List.forall₂_map_left_iff, List.forall₂_map_right_iff, List.forall₂_same]
      exact h.2
    refine (finds_unions h.1 hrest).congr fun q _ => ?_
    rw [List.any_cons, List.any_map]
    rfl

/-- The expression of a local pattern, without signs that open its chains, finds the elements that
match it. -/
theorem finds_expr (hd : d.IsTree) (f : Focus) {p : Pattern} (hne : p ≠ [])
    (hlocal : p.all Chain.isLocal = true) (hopening : ∀ c ∈ p, c.opening = none) :
    Finds d f (expr p) (p.matches d) := by
  have hfinds (c : Chain) (hc : c ∈ p) : Finds d f c.pathExpr (c.holds d fun _ => true) := by
    rw [Chain.pathExpr, hopening c hc]
    exact c.finds hd (List.all_eq_true.1 hlocal c hc) (reaches_anywhere hd) nofun
  refine (finds_expr_of_forall hne hfinds).congr fun q _ => ?_
  have hmatches : p.matches d q = chainsHold d p q := rfl
  rw [hmatches, chainsHold_eq, List.any_map]
  rfl

end

end Pattern

end TreeQuery
