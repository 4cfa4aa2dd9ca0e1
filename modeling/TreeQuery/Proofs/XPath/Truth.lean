import Mathlib.Data.List.Forall2
import TreeQuery.Proofs.Expression.Basic
import TreeQuery.Proofs.XPath.Nodes

/-!
# What expressions are true of

An expression that comes to anything but a number is true of some elements and false of the others,
whatever their position. Steps with such predicates find the elements that lie on the axis, have the
name and satisfy all predicates.

Main statements: `eval_step` and the rules for `Truth`.
-/

namespace TreeQuery.XPath

open Pattern

/-! A number as a predicate asks for a position and not for a truth value. What is true of elements
must therefore not come to a number, and then the position is of no account. -/

theorem Value.holdsAt_eq {v : Value} (h : ∀ n, v ≠ .number n) (position : Nat) :
    v.holdsAt position = v.toBool := by
  cases v with
  | number n => exact absurd rfl (h n)
  | nodes | boolean | text => rfl

namespace Expr

/-- An expression that is true of the elements with a property, whatever their position. -/
def Truth (d : Document) (e : Expr) (T : Path → Bool) : Prop :=
  ∀ p, d.isElement p = true → ∀ position size, ∃ v,
    eval d ⟨.tree p, position, size⟩ e = some v ∧ (∀ n, v ≠ .number n) ∧ v.toBool = T p

/-- An expression that finds the elements with a property. -/
def Finds (d : Document) (f : Focus) (e : Expr) (S : Path → Bool) : Prop :=
  eval d f e = some (.nodes (d.nodesWhere S))

section

variable {d : Document} {e a b : Expr} {es : List Expr} {T U : Path → Bool}
  {Ts : List (Path → Bool)} {f : Focus} {ns : List Node} {v w : Value}

/-- What an expression is true of may be described in another way. -/
theorem Truth.congr (h : Truth d e T) (hT : ∀ p, d.isElement p = true → T p = U p) :
    Truth d e U := by
  intro p hp position size
  obtain ⟨v, hv, hn, ht⟩ := h p hp position size
  exact ⟨v, hv, hn, ht.trans (hT p hp)⟩

/-- So may what it finds. -/
theorem Finds.congr (h : Finds d f e T) (hT : ∀ p, d.isElement p = true → T p = U p) :
    Finds d f e U := by
  rw [Finds] at h ⊢
  rw [h, Document.nodesWhere_congr hT]

/-! ## Predicates

The nodes of a step are gone through with their position and their number. For a predicate that is
true of elements the two do not matter, so that keeping is filtering; the number one keeps the
first. -/

/-- A predicate keeps the elements that it is true of. -/
theorem keep_of_truth (h : Truth d e T)
    (hns : ∀ n ∈ ns, ∃ p, n = .tree p ∧ d.isElement p = true) (size position : Nat) :
    keep (fun f => eval d f e) size position ns = some (ns.filter (Node.onTree T)) := by
  induction ns generalizing position with
  | nil => rfl
  | cons n ns ih =>
    obtain ⟨p, rfl, hp⟩ := hns n (List.mem_cons_self ..)
    obtain ⟨v, hv, hn, ht⟩ := h p hp position size
    have hrest := ih (fun m hm => hns m (List.mem_cons_of_mem _ hm)) (position + 1)
    rw [keep, hv, hrest, List.filter_cons, Node.onTree]
    simp only [Value.holdsAt_eq hn, ht]

/-- Several predicates keep those that all are true of. -/
theorem keepAll_of_truth (h : List.Forall₂ (Truth d) es Ts)
    (hns : ∀ n ∈ ns, ∃ p, n = .tree p ∧ d.isElement p = true) :
    keepAll d es ns = some (ns.filter (Node.onTree fun p => Ts.all (· p))) := by
  induction h generalizing ns with
  | nil =>
    rw [keepAll]
    refine congrArg some (List.filter_eq_self.2 fun n hn => ?_).symm
    obtain ⟨p, rfl, -⟩ := hns n hn
    rfl
  | @cons e T es Ts he hes ih =>
    have hrest := ih fun n (hn : n ∈ ns.filter (Node.onTree T)) => hns n (List.mem_filter.1 hn).1
    rw [keepAll, keep_of_truth he hns]
    simp only [hrest, List.filter_filter]
    refine congrArg some (List.filter_congr fun n _ => ?_)
    cases n with
    | tree p => simp [Node.onTree, Bool.and_comm]
    | attributeOf p i => rfl

theorem keep_later {position : Nat} (h : 1 < position) (size : Nat) (ns : List Node) :
    keep (fun f => eval d f (.number (.whole 1))) size position ns = some [] := by
  induction ns generalizing position with
  | nil => rfl
  | cons n ns ih =>
    have hholds : Value.holdsAt position (.number (.whole 1)) = false := by
      rw [Value.holdsAt, Number.beq, beq_eq_false_iff_ne]
      omega
    rw [keep, eval]
    simp only [ih (Nat.lt_succ_of_lt h), hholds, Bool.false_eq_true, if_false]

/-- The first of some nodes is the one at the position one. -/
theorem keep_first (size : Nat) (ns : List Node) :
    keep (fun f => eval d f (.number (.whole 1))) size 1 ns = some (ns.take 1) := by
  cases ns with
  | nil => rfl
  | cons n ns =>
    rw [keep, eval]
    simp only [keep_later (Nat.lt_succ_self 1)]
    rfl

/-! ## Steps

What the nodes on an axis come to is put together for all nodes that the step starts from, and
sorted. -/

theorem gather_eq {g : Node → Option (List Node)} {k : Node → List Node}
    (h : ∀ n ∈ ns, g n = some (k n)) : gather g ns = some (ns.flatMap k) := by
  induction ns with
  | nil => rfl
  | cons n ns ih =>
    have hrest := ih fun m hm => h m (List.mem_cons_of_mem _ hm)
    rw [gather, h n (List.mem_cons_self ..)]
    simp only [hrest, List.flatMap_cons]

theorem eval_descend (h : eval d f e = some (.nodes ns)) : eval d f (descend e) =
    some (.nodes (Node.ordered d (ns.flatMap fun n =>
      (n.along d .descendantOrSelf).filter (NodeTest.node.passes d .descendantOrSelf)))) := by
  have hgather : gather (fun n => keepAll d []
      ((n.along d .descendantOrSelf).filter (NodeTest.node.passes d .descendantOrSelf))) ns = _ :=
    gather_eq fun _ _ => by rw [keepAll]
  rw [descend, eval, h]
  simp only [Option.bind_some, Value.nodes?, NodeTest.isBound, if_true, hgather, Option.map_some]

/-! ## Functions and operators

What is true of elements is put together by the operators of truth values. Where an expression finds
nodes it is true if there is one. -/

/-- A union comes to the nodes of both. -/
theorem eval_union {a b : Expr} {ms : List Node} (ha : eval d f a = some (.nodes ns))
    (hb : eval d f b = some (.nodes ms)) :
    eval d f (.binary .union a b) = some (.nodes (Node.ordered d (ns ++ ms))) := by
  rw [eval, ha]
  simp only [Operator.decided, hb, Operator.apply]

theorem truth_of_boolean (h : ∀ p, d.isElement p = true → ∀ position size,
    eval d ⟨.tree p, position, size⟩ e = some (.boolean (T p))) : Truth d e T :=
  fun p hp position size => ⟨_, h p hp position size, fun _ => nofun, rfl⟩

/-- An expression that finds elements is true where there is one. -/
theorem truth_of_finds {S : Path → Path → Bool} (h : ∀ p, d.isElement p = true →
    ∀ position size, Finds d ⟨.tree p, position, size⟩ e (S p)) :
    Truth d e fun p => d.elements.any (S p) := by
  intro p hp position size
  refine ⟨_, h p hp position size, fun _ => nofun, ?_⟩
  rw [Bool.eq_iff_iff, Value.toBool, Bool.not_eq_true', List.isEmpty_eq_false_iff_exists_mem,
    List.any_eq_true]
  constructor
  · rintro ⟨n, hn⟩
    obtain ⟨q, -, hq, hS⟩ := Document.mem_nodesWhere.1 hn
    exact ⟨q, Document.mem_elements_iff.2 hq, hS⟩
  · rintro ⟨q, hq, hS⟩
    exact ⟨_, Document.tree_mem_nodesWhere.2 ⟨Document.mem_elements_iff.1 hq, hS⟩⟩

/-- The negation is true of the others. -/
theorem truth_not (h : Truth d e T) : Truth d (.call ⟨[], "not".toList⟩ [e]) fun p => !T p := by
  refine truth_of_boolean fun p hp position size => ?_
  obtain ⟨v, hv, -, ht⟩ := h p hp position size
  rw [eval, evalAll, hv, ← ht]
  rfl

theorem eval_or (ha : eval d f a = some v) (hb : eval d f b = some w) :
    eval d f (.binary .or a b) = some (.boolean (v.toBool || w.toBool)) := by
  rw [eval, ha]
  cases hv : v.toBool <;> simp [Operator.decided, hv, hb, Operator.apply]

theorem eval_and (ha : eval d f a = some v) (hb : eval d f b = some w) :
    eval d f (.binary .and a b) = some (.boolean (v.toBool && w.toBool)) := by
  rw [eval, ha]
  cases hv : v.toBool <;> simp [Operator.decided, hv, hb, Operator.apply]

/-- One of two conditions is true. -/
theorem truth_or (ha : Truth d a T) (hb : Truth d b U) :
    Truth d (.binary .or a b) fun p => T p || U p := by
  refine truth_of_boolean fun p hp position size => ?_
  obtain ⟨v, hv, -, ht⟩ := ha p hp position size
  obtain ⟨w, hw, -, hu⟩ := hb p hp position size
  rw [eval_or hv hw, ht, hu]

/-- Both of two conditions are true. -/
theorem truth_and (ha : Truth d a T) (hb : Truth d b U) :
    Truth d (.binary .and a b) fun p => T p && U p := by
  refine truth_of_boolean fun p hp position size => ?_
  obtain ⟨v, hv, -, ht⟩ := ha p hp position size
  obtain ⟨w, hw, -, hu⟩ := hb p hp position size
  rw [eval_and hv hw, ht, hu]

theorem truth_foldl (ha : Truth d a T) (h : List.Forall₂ (Truth d) es Ts) :
    Truth d (es.foldl (.binary .or) a) fun p => T p || Ts.any (· p) := by
  induction h generalizing a T with
  | nil => exact ha.congr fun p _ => by simp
  | @cons e U es Us he _ ih =>
    exact (ih (truth_or ha he)).congr fun p _ => by simp [Bool.or_assoc]

/-- One of several conditions is true. -/
theorem truth_anyOf (h : List.Forall₂ (Truth d) es Ts) :
    Truth d (anyOf es) fun p => Ts.any (· p) := by
  cases h with
  | nil => exact truth_of_boolean fun p _ position size => rfl
  | cons he hes => exact truth_foldl he hes

end

end Expr

end TreeQuery.XPath

namespace TreeQuery

open XPath XPath.Expr Pattern

/-- Whether an element has a tag; the empty tag and the star are those of any element. -/
def Document.hasTag (d : Document) (tag : Text) (p : Path) : Bool :=
  tag.isEmpty || tag == ['*'] ||
    ((d.label? p).bind Label.name?).any fun n => n.localPart == tag && n.uri.isEmpty

namespace XPath.Expr

section

variable {d : Document} {axis : Axis} {f : Focus} {start : Expr} {es : List Expr}
  {Ts : List (Path → Bool)} {ns : List Node}

theorem isBound_testOf (tag : Text) : (testOf tag).isBound = true := by
  rw [testOf]
  split <;> rfl

/-- The test for a tag passes the elements that have it. -/
theorem passes_testOf (tag : Text) (ha : axis ≠ .attributes) (n : Node) : (testOf tag).passes d axis n =
    Node.onTree (fun p => d.isElement p && d.hasTag tag p) n := by
  have hprincipal : NodeTest.isPrincipal d axis n = Node.onTree d.isElement n := by
    rw [NodeTest.isPrincipal, if_neg ha]
    cases n <;> rfl
  rw [testOf]
  split
  · next h =>
    rw [NodeTest.passes, hprincipal]
    cases n with
    | tree p => simp [Node.onTree, Document.hasTag, h]
    | attributeOf p i => rfl
  · next h =>
    rw [NodeTest.passes, hprincipal]
    cases n with
    | tree p =>
      rw [Bool.not_eq_true] at h
      have hname : Node.name? d (.tree p) = (d.label? p).bind Label.name? := rfl
      simp only [Node.onTree, Document.hasTag, hname, h, Bool.false_or]
      congr 2
      funext n
      cases n.uri <;> rfl
    | attributeOf p i => rfl

/-- What is on an axis other than that of attributes and passes a test for a name is an element. -/
theorem exists_element_of_passes (tag : Text) (ha : axis ≠ .attributes) (n : Node) :
    ∀ m ∈ (n.along d axis).filter ((testOf tag).passes d axis),
      ∃ p, m = .tree p ∧ d.isElement p = true := by
  intro m hm
  have := (List.mem_filter.1 hm).2
  rw [passes_testOf tag ha] at this
  cases m with
  | tree p =>
    rw [Node.onTree, Bool.and_eq_true] at this
    exact ⟨p, rfl, this.1⟩
  | attributeOf p i => cases this

/-- A step finds the elements on its axis that have the name and satisfy the predicates. -/
theorem eval_step (tag : Text) (hs : eval d f start = some (.nodes ns)) (ha : axis ≠ .attributes)
    (hes : List.Forall₂ (Truth d) es Ts) :
    Finds d f (.step start axis (testOf tag) es) fun p =>
      ns.any (fun n => (n.along d axis).contains (.tree p)) && d.hasTag tag p && Ts.all (· p) := by
  have hpass := exists_element_of_passes (d := d) tag ha
  have hkeep (n : Node) := keepAll_of_truth hes (hpass n)
  have hgather := gather_eq fun n (_ : n ∈ ns) => hkeep n
  rw [Finds, eval, hs]
  simp only [Option.bind_some, Value.nodes?, isBound_testOf, if_true, hgather, Option.map_some]
  refine congrArg (fun l => some (Value.nodes l)) (Document.ordered_eq_nodesWhere ?_ ?_)
  · intro m hm
    obtain ⟨n, -, hm⟩ := List.mem_flatMap.1 hm
    exact hpass n m (List.mem_filter.1 hm).1
  · intro p hp
    simp only [List.mem_flatMap, List.mem_filter, passes_testOf tag ha, Node.onTree, hp, Bool.true_and,
      Bool.and_eq_true, List.any_eq_true, List.contains_iff_mem]
    constructor
    · rintro ⟨n, hn, ⟨hm, ht⟩, hT⟩
      exact ⟨⟨⟨n, hn, hm⟩, ht⟩, hT⟩
    · rintro ⟨⟨⟨n, hn, hm⟩, ht⟩, hT⟩
      exact ⟨n, hn, ⟨hm, ht⟩, hT⟩

end

end XPath.Expr

end TreeQuery
