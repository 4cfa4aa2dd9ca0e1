import TreeQuery.Proofs.Expression.Values
import TreeQuery.Proofs.Matching.Chains

/-!
# The step to the next sibling

Behind a chain, the step to the next sibling goes on to all later siblings whose nearest preceding
element is what the last link of the chain asks for, seen on its own. It is not asked whether that
element is one the chain leads to. It is, if the last link tells its elements from their own
properties among children or later siblings; where the last link is itself a next sibling, or asks
for a position, the step can find too much or too little. Where the last link selects from the whole
result, the step is another one and exact.

Main statements: `Chain.finds_adjacent` and `Chain.leadsNext_of_keepsNext`.
-/

namespace TreeQuery

open XPath XPath.Expr

theorem XPath.Expr.truthAt_of_truth {d : Document} {e : Expr} {T : Path → Bool} {p : Path}
    (h : Truth d e T) (hp : d.isElement p = true) : truthAt d e p = T p := by
  obtain ⟨v, hv, -, ht⟩ := h p hp 0 0
  rw [truthAt, hv, ← ht]
  rfl

/-- An axis that holds with a node its later siblings. -/
def XPath.Axis.IsOnward (a : Axis) : Prop := a = .child ∨ a = .followingSibling

theorem XPath.Axis.IsOnward.ne_attributes {a : Axis} (h : a.IsOnward) : a ≠ .attributes := by
  rcases h with rfl | rfl <;> decide

namespace Document

variable {d : Document} {p q r s : Path}

theorem mem_children_of_mem_laterSiblings (hs : s ∈ d.laterSiblings r) (hr : r ∈ d.children q) :
    s ∈ d.children q := by
  obtain ⟨i, -, rfl⟩ := mem_children_iff.1 hr
  obtain ⟨j, -, hj, rfl⟩ := mem_laterSiblings_concat.1 hs
  exact mem_children_iff.2 ⟨j, hj, rfl⟩

/-- Whether the nearest preceding element of an element is one of those that are found. -/
def isNextTo (d : Document) (found : List Path) (p : Path) : Bool :=
  (d.previousElement? p).any found.contains

/-- A later sibling of a later sibling is a later sibling. -/
theorem mem_laterSiblings_trans (hs : s ∈ d.laterSiblings r) (hr : r ∈ d.laterSiblings q) :
    s ∈ d.laterSiblings q := by
  obtain rfl | ⟨t, i, rfl⟩ := eq_nil_or_concat q
  · cases hr
  obtain ⟨j, hj, -, rfl⟩ := mem_laterSiblings_concat.1 hr
  obtain ⟨k, hk, hlen, rfl⟩ := mem_laterSiblings_concat.1 hs
  exact mem_laterSiblings_concat.2 ⟨k, by omega, hlen, rfl⟩

end Document

namespace Pattern

def Element.isSteady (e : Element) : Bool := e.conditions.all (!·.isPositional)

def Element.passes (d : Document) (e : Element) (p : Path) : Bool :=
  d.hasTag e.tag p &&
    (e.tests.map AttributeTest.expr ++ e.conditions.map Condition.expr).all (truthAt d · p)

def Chain.endsAdjacent : Chain → Bool
  | .link _ (some .adjacent) _ => true
  | _ => false

def Chain.keepsNext (c : Chain) : Bool :=
  c.last.isResultScoped || (!c.endsAdjacent && c.last.isSteady)

section

variable {d : Document} {f : Focus} {start : Expr} {a : Axis} {e : Element} {es : List Expr}
  {Ts : List (Path → Bool)} {scope : Path → Bool} {p : Path}

/-! ## Elements that ask for no position

An element without conditions that ask for a position is a step with predicates only, and each
predicate has the same value for an element wherever it stands. What the step finds is then what it
reaches and what passes the predicates one by one. The conditions of the pseudo-classes that select
from the whole result are excluded along with the others, as they ask for positions too. -/

theorem Condition.isResultScoped_of_not_isPositional {c : Condition}
    (h : c.isPositional = false) : c.isResultScoped = false := by
  cases c with
  | static s => cases s <;> first | rfl | cases h
  | contains | not | has => rfl

theorem Element.isResultScoped_of_isSteady (h : e.isSteady = true) :
    e.isResultScoped = false := by
  rw [isResultScoped, List.any_eq_false]
  intro c hc
  rw [isSteady, List.all_eq_true] at h
  rw [Condition.isResultScoped_of_not_isPositional (by simpa using h c hc)]
  exact Bool.false_ne_true

/-- A step to an element that asks for no position, with predicates in front of its own. -/
theorem Element.finds_passing (hd : d.IsTree) (he : e.isSteady = true)
    (hs : Reaches d f start a scope) (ha : a ≠ .attributes)
    (hes : List.Forall₂ (Truth d) es Ts) : Finds d f (e.stretch start a es).expr fun p =>
      scope p && (Ts.all (· p) && e.passes d p) := by
  have hscoped : e.conditions.any Condition.isResultScoped = false :=
    e.isResultScoped_of_isSteady he
  obtain ⟨tag, tests, conditions⟩ := e
  have hscoped : conditions.any Condition.isResultScoped = false := hscoped
  -- Tests and conditions are alike here: both are predicates that ask for no position.
  have hsteady : ∀ x ∈ tests.map AttributeTest.expr ++ conditions.map Condition.expr,
      Steady d x := by
    intro x hx
    rcases List.mem_append.1 hx with hx | hx
    · obtain ⟨t, -, rfl⟩ := List.mem_map.1 hx
      exact t.steady hd
    · obtain ⟨c, hc, rfl⟩ := List.mem_map.1 hx
      exact c.steady hd (by simpa using List.all_eq_true.1 he c hc)
  have htruth : List.Forall₂ (Truth d)
      (es ++ (tests.map AttributeTest.expr ++ conditions.map Condition.expr))
      (Ts ++ (tests.map AttributeTest.expr ++ conditions.map Condition.expr).map (truthAt d)) := by
    refine List.rel_append hes ?_
    rw [List.forall₂_map_right_iff, List.forall₂_same]
    exact hsteady
  have hstretch : ((Element.mk tag tests conditions).stretch start a es).expr =
      .step start a (testOf tag)
        (es ++ (tests.map AttributeTest.expr ++ conditions.map Condition.expr)) := by
    show (givenAll (.step start a (testOf tag) (es ++ tests.map AttributeTest.expr))
      conditions).expr = _
    rw [givenAll_step hscoped, List.append_assoc]
    rfl
  rw [hstretch]
  refine (hs.finds ha tag htruth).congr fun p _ => ?_
  simp only [Element.passes, Element.tag, Element.tests, Element.conditions, List.all_append,
    List.all_map, Function.comp_def]
  cases d.hasTag tag p <;> cases Ts.all (· p) <;> simp

/-- What is asked of an element is true of the elements that pass it. -/
theorem Element.truth_passes (hd : d.IsTree) (he : e.isSteady = true) :
    Truth d (e.stretch .here .self []).expr (e.passes d) := by
  refine truth_of_finds_self fun p position size => ?_
  exact e.finds_passing hd he (reaches_self p position size) (by decide) .nil

/-! ## The next sibling

Two steps have to be told apart. Behind an unscoped link the expression goes to all later siblings
of what the chain leads to, and asks each of them whether the element in front of it passes the last
test of the chain: the test alone, since the chain in front of it is not in the predicate. Behind a
scoped link the expression goes to the first later sibling of each element, and asks that one for
the name; nothing is lost, and the step is exact.

An unscoped step is exact all the same if the element in front is reached by the chain whenever some
earlier sibling is. This is so if the axis of the last link holds with an element its later
siblings, and if passing the last test does not depend on the way to an element. -/

/-- Behind an unscoped link: the later siblings of what the chain leads to whose nearest preceding
element passes the last test. -/
theorem Chain.finds_adjacent_unscoped (hd : d.IsTree) {c : Chain}
    (hc : c.last.isResultScoped = false) (he : e.isSteady = true) {ns : List Node}
    (hs : eval d f (c.stretch start a).expr = some (.nodes ns)) :
    Finds d f ((Chain.link c (some .adjacent) e).stretch start a).expr fun p =>
      ns.any (fun n => (n.along d .followingSibling).contains (.tree p)) &&
        ((d.previousElement? p).any (truthAt d c.lastStretch.expr) && e.passes d p) := by
  rw [Chain.stretch_adjacent, hc, if_neg Bool.false_ne_true]
  have hreach : Reaches d f (c.stretch start a).expr .followingSibling fun p =>
      ns.any fun n => (n.along d .followingSibling).contains (.tree p) := ⟨ns, hs, fun _ _ => rfl⟩
  refine (e.finds_passing hd he hreach (by decide)
    (.cons (truth_nearest (c.steady_last hd)) .nil)).congr fun p _ => ?_
  simp

theorem mem_filterMap_element? {ns : List Node} {p : Path} (hp : d.isElement p = true) :
    p ∈ ns.filterMap (·.element? d) ↔ .tree p ∈ ns := by
  have helement : Node.element? d (.tree p) = some p := by
    rw [Node.element?, if_pos hp]
  rw [List.mem_filterMap]
  constructor
  · rintro ⟨n, hn, h⟩
    cases n with
    | attributeOf r i => cases h
    | tree r =>
      rw [Node.element?] at h
      split at h
      · cases h
        exact hn
      · cases h
  · intro h
    exact ⟨_, h, helement⟩

theorem contains_filterMap_element? {ns : List Node} {p : Path} (hp : d.isElement p = true) :
    (ns.filterMap (·.element? d)).contains p = ns.contains (.tree p) := by
  rw [Bool.eq_iff_iff, List.contains_iff_mem, List.contains_iff_mem, mem_filterMap_element? hp]

theorem contains_along_followingSibling {r p : Path} :
    ((Node.tree r).along d .followingSibling).contains (.tree p) =
      (d.laterSiblings r).contains p := by
  have halong : (Node.tree r).along d .followingSibling = (d.laterSiblings r).map .tree := rfl
  rw [halong, Bool.eq_iff_iff, List.contains_iff_mem, List.contains_iff_mem, mem_map_tree]

def nextNodes (d : Document) : Node → List Node
  | .tree q => (d.nextElement? q).toList.map .tree
  | .attributeOf _ _ => []

/-- The predicate `[1]` keeps the nearest element of the later siblings. -/
theorem keepAll_next (d : Document) (q : Path) : keepAll d [.number (.whole 1)]
    (((Node.tree q).along d .followingSibling).filter
      (NodeTest.anyName.passes d .followingSibling)) = some (nextNodes d (.tree q)) := by
  have hnext : d.nextElement? q = ((d.laterSiblings q).filter d.isElement).head? :=
    (List.head?_filter ..).symm
  have halong : (Node.tree q).along d .followingSibling = (d.laterSiblings q).map .tree := rfl
  rw [halong, filter_anyName .followingSibling (by decide), keepAll, keep_first]
  simp only
  rw [keepAll, nextNodes, hnext, List.take_one, List.head?_map]
  cases ((d.laterSiblings q).filter d.isElement).head? <;> rfl

/-- An element is next to one of a set if the element in front of it is in the set. -/
theorem mem_ordered_next {ns : List Node}
    (hns : ∀ n ∈ ns, ∃ p, n = .tree p ∧ d.isElement p = true) (hp : d.isElement p = true) :
    .tree p ∈ Node.ordered d (ns.flatMap (nextNodes d)) ↔
      ∃ s, d.previousElement? p = some s ∧ .tree s ∈ ns := by
  -- That one element is next to another is read from both sides: the search goes forward, the
  -- statement asks backward.
  rw [Node.mem_ordered_iff, List.mem_flatMap]
  constructor
  · rintro ⟨-, n, hn, hnext⟩
    obtain ⟨s, rfl, hs⟩ := hns n hn
    obtain ⟨q, hq, heq⟩ := List.mem_map.1 hnext
    cases heq
    exact ⟨s, (Document.nextElement?_eq_some_iff hs hp).1 (Option.mem_toList.1 hq), hn⟩
  · rintro ⟨s, hprevious, hn⟩
    obtain ⟨q, heq, hs⟩ := hns _ hn
    cases heq
    have hnext := (Document.nextElement?_eq_some_iff hs hp).2 hprevious
    have hall := Node.tree_mem_all.2 (.inr (Document.isSome_of_isElement hp))
    exact ⟨hall, .tree s, hn, List.mem_map.2 ⟨p, Option.mem_toList.2 hnext, rfl⟩⟩

/-- The elements next to some elements are reached as the first of the later siblings. -/
theorem reaches_next {e : Expr} {ns : List Node} (hs : eval d f e = some (.nodes ns))
    (hns : ∀ n ∈ ns, ∃ p, n = .tree p ∧ d.isElement p = true) :
    Reaches d f (.step e .followingSibling .anyName [.number (.whole 1)]) .self fun p =>
      (d.previousElement? p).any fun s => ns.contains (.tree s) := by
  have hgather : gather (fun n => keepAll d [.number (.whole 1)]
      ((n.along d .followingSibling).filter (NodeTest.anyName.passes d .followingSibling))) ns =
        some (ns.flatMap (nextNodes d)) := by
    refine gather_eq fun n hn => ?_
    obtain ⟨q, rfl, -⟩ := hns n hn
    exact keepAll_next d q
  have heval : eval d f (.step e .followingSibling .anyName [.number (.whole 1)]) =
      some (.nodes (Node.ordered d (ns.flatMap (nextNodes d)))) := by
    rw [eval, hs]
    simp only [Option.bind_some, Value.nodes?, NodeTest.isBound, if_true, hgather,
      Option.map_some]
  refine ⟨_, heval, fun p hp => ?_⟩
  have hself (n : Node) : (n.along d .self).contains (.tree p) = (n == .tree p) := by
    have halong : n.along d .self = [n] := by cases n <;> rfl
    rw [halong, Bool.eq_iff_iff, List.contains_iff_mem, List.mem_singleton, beq_iff_eq, eq_comm]
  simp only [hself, List.any_beq']
  rw [Bool.eq_iff_iff, List.contains_iff_mem, mem_ordered_next hns hp, Option.any_eq_true]
  simp only [List.contains_iff_mem]

/-- Both axes of a chain reach with an element its later siblings. -/
theorem along_of_mem_laterSiblings (ha : a.IsOnward) {n : Node} {r s : Path}
    (hs : s ∈ d.laterSiblings r) (h : .tree r ∈ n.along d a) : .tree s ∈ n.along d a := by
  cases n with
  | attributeOf q i => rcases ha with rfl | rfl <;> cases h
  | tree q =>
    rcases ha with rfl | rfl
    · have halong : (Node.tree q).along d .child = (d.children q).map .tree := rfl
      rw [halong, mem_map_tree] at h ⊢
      exact Document.mem_children_of_mem_laterSiblings hs h
    · have halong : (Node.tree q).along d .followingSibling = (d.laterSiblings q).map .tree := rfl
      rw [halong, mem_map_tree] at h ⊢
      exact Document.mem_laterSiblings_trans hs h

/-- The last step of a chain, where it is no next sibling: what is reached along an axis and passes
the last test. -/
theorem Chain.finds_last (hd : d.IsTree) {c : Chain} (hadjacent : c.endsAdjacent = false)
    (hc : c.last.isSteady = true) {ms : List Node} (hstart : eval d f start = some (.nodes ms))
    (ha : a.IsOnward) : ∃ (ks : List Node) (a' : Axis), a'.IsOnward ∧
      Finds d f (c.stretch start a).expr fun p =>
        ks.any (fun n => (n.along d a').contains (.tree p)) && c.last.passes d p := by
  have hlast {s : Expr} {ks : List Node} {a' : Axis} (hs : eval d f s = some (.nodes ks))
      (ha' : a' ≠ .attributes) : Finds d f (c.last.stretch s a' []).expr fun p =>
        ks.any (fun n => (n.along d a').contains (.tree p)) && c.last.passes d p :=
    c.last.finds_passing hd hc ⟨ks, hs, fun _ _ => rfl⟩ ha' .nil
  -- What is in front of the last link gives the set from which its step starts; for the first link
  -- it is the beginning of the path.
  cases c with
  | start o x => exact ⟨ms, a, ha, hlast hstart ha.ne_attributes⟩
  | link b o x =>
    obtain ⟨ks, hks, -⟩ := (b.settled hd ⟨ms, hstart, hstart⟩ ha.ne_attributes).elements.nodes
    cases o with
    | none => exact ⟨_, .child, .inl rfl, hlast (eval_descend hks) (by decide)⟩
    | some o =>
      cases o with
      | child => exact ⟨ks, .child, .inl rfl, hlast hks (by decide)⟩
      | sibling => exact ⟨ks, .followingSibling, .inr rfl, hlast hks (by decide)⟩
      | adjacent => cases hadjacent

/-- Whether an element can be found behind a chain as a next sibling, when `found` is what the chain
leads to. -/
def Chain.leadsNext (d : Document) (c : Chain) (found : List Path) (p : Path) : Bool :=
  if c.last.isResultScoped then d.isNextTo found p
  else found.any (fun r => (d.laterSiblings r).contains p) &&
    (d.previousElement? p).any (truthAt d c.lastStretch.expr)

/-- What a chain with a next sibling behind it finds. -/
theorem Chain.finds_adjacent (hd : d.IsTree) {c : Chain} (he : e.isSteady = true) {ms : List Node}
    (hstart : eval d f start = some (.nodes ms)) (ha : a.IsOnward) {ns : List Node}
    (hs : eval d f (c.stretch start a).expr = some (.nodes ns)) :
    Finds d f ((Chain.link c (some .adjacent) e).stretch start a).expr fun p =>
      c.leadsNext d (ns.filterMap (·.element? d)) p && e.passes d p := by
  obtain ⟨ks, hks, heval, -⟩ := (c.settled hd ⟨ms, hstart, hstart⟩ ha.ne_attributes).elements
  rw [hs] at heval
  cases heval
  cases hscoped : c.last.isResultScoped with
  | true =>
    -- The expression steps to the next sibling and asks it for the name.
    rw [Chain.stretch_adjacent, if_pos hscoped]
    refine (e.finds_passing hd he (reaches_next hs hks) (by decide) .nil).congr fun p _ => ?_
    rw [Chain.leadsNext, if_pos hscoped, Document.isNextTo]
    refine congrArg (· && e.passes d p) ?_
    cases hprevious : d.previousElement? p with
    | none => rfl
    | some s => exact (contains_filterMap_element? (List.find?_some hprevious)).symm
  | false =>
    -- The expression goes to all later siblings and looks back from each of them.
    refine (Chain.finds_adjacent_unscoped hd hscoped he hs).congr fun p _ => ?_
    rw [Chain.leadsNext, if_neg (hscoped ▸ Bool.false_ne_true), Bool.and_assoc]
    refine congrArg (· && _) ?_
    rw [Bool.eq_iff_iff, List.any_eq_true, List.any_eq_true]
    constructor
    · rintro ⟨n, hn, hlater⟩
      obtain ⟨r, rfl, hr⟩ := hks n hn
      exact ⟨r, (mem_filterMap_element? hr).2 hn, contains_along_followingSibling ▸ hlater⟩
    · rintro ⟨r, hr, hlater⟩
      obtain ⟨n, hn, h⟩ := List.mem_filterMap.1 hr
      obtain ⟨s, rfl, hs⟩ := hks n hn
      rw [Node.element?, if_pos hs] at h
      cases h
      exact ⟨_, hn, contains_along_followingSibling.trans hlater⟩

/-- Where the step to the next sibling is exact. -/
theorem Chain.leadsNext_of_keepsNext (hd : d.IsTree) {c : Chain} (hc : c.keepsNext = true)
    {ms : List Node} (hstart : eval d f start = some (.nodes ms)) (ha : a.IsOnward)
    {ns : List Node} (hs : eval d f (c.stretch start a).expr = some (.nodes ns))
    (hp : d.isElement p = true) : c.leadsNext d (ns.filterMap (·.element? d)) p =
      d.isNextTo (ns.filterMap (·.element? d)) p := by
  cases hscoped : c.last.isResultScoped with
  | true => rw [Chain.leadsNext, if_pos hscoped]
  | false =>
    rw [Chain.keepsNext, hscoped, Bool.false_or, Bool.and_eq_true, Bool.not_eq_true'] at hc
    obtain ⟨ks, a', ha', hlast⟩ := Chain.finds_last hd hc.1 hc.2 hstart ha
    rw [Finds, hs] at hlast
    cases hlast
    have htruth (s : Path) (h : d.isElement s = true) :
        truthAt d c.lastStretch.expr s = c.last.passes d s := by
      rw [c.lastStretch_eq]
      exact truthAt_of_truth (c.last.truth_passes hd hc.2) h
    rw [Chain.leadsNext, if_neg (hscoped ▸ Bool.false_ne_true), Document.isNextTo,
      Document.filterMap_nodesWhere, Bool.eq_iff_iff, Bool.and_eq_true, List.any_eq_true,
      Option.any_eq_true, Option.any_eq_true]
    simp only [List.contains_iff_mem, List.mem_filter, Document.mem_elements_iff,
      Bool.and_eq_true, List.any_eq_true]
    constructor
    · -- Some element that is found stands in front of `p`, and the one right in front passes the
      -- test alone. It is reached too, since the axis goes on from an element to its later
      -- siblings.
      rintro ⟨⟨r, ⟨hr, ⟨k, hk, hreach⟩, -⟩, hlater⟩, s, hprevious, hs⟩
      have helement : d.isElement s = true := List.find?_some hprevious
      rw [htruth s helement] at hs
      refine ⟨s, hprevious, helement, ⟨k, hk, ?_⟩, hs⟩
      rcases Document.eq_or_mem_laterSiblings hr hlater hprevious with rfl | hsr
      · exact hreach
      · exact along_of_mem_laterSiblings ha' hsr hreach
    · rintro ⟨s, hprevious, helement, hreach, hpasses⟩
      have hearlier : s ∈ d.earlierSiblings p := List.mem_of_find?_eq_some hprevious
      refine ⟨⟨s, ⟨helement, hreach, hpasses⟩, ?_⟩, s, hprevious, ?_⟩
      · exact (Document.mem_laterSiblings_iff (Document.isSome_of_isElement hp)).2 hearlier
      · rw [htruth s helement]
        exact hpasses

end

end Pattern

end TreeQuery
