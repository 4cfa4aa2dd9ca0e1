import TreeQuery.Proofs.Expression.Readable
import TreeQuery.Proofs.Expression.Values
import TreeQuery.Proofs.Matching.Chains

/-!
# Paths that begin at an element

A chain without `:first` and `:last` takes the same steps wherever it begins: each step goes from
each node on its own, and its predicates count along the axis from that node. From an element it
therefore comes to nodes that it also comes to from the document; and as its steps lead to children,
to all that lies below and to later siblings, they stay below the element. A single step below the
element misses none of the nodes there.

Main statements: `within_anchoredExpr` and `filters_anchoredExpr`.
-/

namespace TreeQuery

open XPath XPath.Expr

namespace XPath.Expr

section

variable {d : Document} {f f' : Focus} {a b a' b' e e' : Expr} {B B' : Path → Prop}
  {x : Axis} {n : Path}

/-! ## Nodes below an element

Where a step can lead from below an element is told by the axis alone. The property of being below
is not kept by all the axes of a chain from all nodes: the later siblings of the element itself are
not below it. So a path has to go down first, and then stays below. -/

/-- An axis that leads from nodes with one property to nodes with another only. -/
def Keeps (d : Document) (x : Axis) (B B' : Path → Prop) : Prop :=
  ∀ q r, B q → .tree r ∈ (Node.tree q).along d x → B' r

/-- A child of what is at or below a node is below it. -/
theorem keeps_child : Keeps d .child (n <+: ·) (n ∈ Path.ancestors ·) := by
  intro q r hq hr
  have halong : (Node.tree q).along d .child = (d.children q).map .tree := rfl
  rw [halong, Pattern.mem_map_tree] at hr
  obtain ⟨i, -, rfl⟩ := Document.mem_children_iff.1 hr
  exact Pattern.mem_ancestors_concat.2 hq

/-- A later sibling of what is below a node is below it. -/
theorem keeps_followingSibling :
    Keeps d .followingSibling (n ∈ Path.ancestors ·) (n ∈ Path.ancestors ·) := by
  intro q r hq hr
  have halong : (Node.tree q).along d .followingSibling = (d.laterSiblings q).map .tree := rfl
  rw [halong, Pattern.mem_map_tree] at hr
  obtain rfl | ⟨s, i, rfl⟩ := Document.eq_nil_or_concat q
  · cases hr
  · obtain ⟨j, -, -, rfl⟩ := Document.mem_laterSiblings_concat.1 hr
    rw [Pattern.mem_ancestors_concat] at hq ⊢
    exact hq

theorem keeps_descendantOrSelf :
    Keeps d .descendantOrSelf (n ∈ Path.ancestors ·) (n <+: ·) := by
  intro q r hq hr
  have halong : (Node.tree q).along d .descendantOrSelf =
      (q :: d.descendants q).map .tree := rfl
  rw [halong, Pattern.mem_map_tree, List.mem_cons] at hr
  have hprefix : q <+: r := by
    rcases hr with rfl | hr
    · exact List.prefix_rfl
    · obtain ⟨t, -, rfl⟩ := List.mem_map.1 hr
      exact List.prefix_append q t
  exact (Path.mem_ancestors_iff.1 hq).1.trans hprefix

/-! ## Nodes that are also found from elsewhere

An unscoped step keeps from each node what it keeps whatever the other nodes are. If one set of
nodes is a part of another, then what a step keeps from the one is a part of what it keeps from the
other. Along a chain this gives containment, and with it the property of being below goes along. -/

/-- An expression comes to nodes of the trees with a property, all of which another expression comes
to for another focus. -/
def Within (d : Document) (B : Path → Prop) (f f' : Focus) (e e' : Expr) : Prop :=
  ∃ ns ns', eval d f e = some (.nodes ns) ∧ eval d f' e' = some (.nodes ns') ∧
    ∀ m ∈ ns, m ∈ ns' ∧ ∃ q, m = .tree q ∧ B q

theorem Within.mono (h : Within d B f f' e e') (hB : ∀ q, B q → B' q) : Within d B' f f' e e' := by
  obtain ⟨ns, ns', hns, hns', hall⟩ := h
  refine ⟨ns, ns', hns, hns', fun m hm => ?_⟩
  obtain ⟨hm', q, hq, hB'⟩ := hall m hm
  exact ⟨hm', q, hq, hB q hB'⟩

/-- Whatever keeps, from each node that it starts from, trees along an axis, goes on from nodes that
are also found from elsewhere to such nodes. -/
theorem Within.along {g : Expr → Expr} {kept : Node → List Node} (h : Within d B f f' e e')
    (hkeeps : Keeps d x B B')
    (hkept : ∀ q, ∀ m ∈ kept (.tree q), m ∈ (Node.tree q).along d x ∧ ∃ r, m = .tree r)
    (hg : ∀ {f : Focus} {start : Expr} {ns : List Node}, eval d f start = some (.nodes ns) →
      eval d f (g start) = some (.nodes (Node.ordered d (ns.flatMap kept)))) :
    Within d B' f f' (g e) (g e') := by
  obtain ⟨ns, ns', hns, hns', hall⟩ := h
  refine ⟨_, _, hg hns, hg hns', fun m hm => ?_⟩
  rw [Node.mem_ordered_iff, List.mem_flatMap] at hm
  obtain ⟨hm, k, hk, hmk⟩ := hm
  obtain ⟨hk', q, rfl, hq⟩ := hall k hk
  obtain ⟨halong, r, rfl⟩ := hkept _ _ hmk
  exact ⟨Node.mem_ordered_iff.2 ⟨hm, List.mem_flatMap.2 ⟨_, hk', hmk⟩⟩, r, rfl,
    hkeeps q r hq halong⟩

/-- A step with predicates that have a value goes on from nodes to nodes. -/
theorem Within.step {tag : Text} {es : List Expr} (h : Within d B f f' e e')
    (hx : x ≠ .attributes) (hkeeps : Keeps d x B B') (hes : ∀ e ∈ es, Total d e) :
    Within d B' f f' (.step e x (Pattern.testOf tag) es) (.step e' x (Pattern.testOf tag) es) := by
  obtain ⟨kept, hkept, hstep⟩ := exists_kept tag hx hes
  refine h.along (g := fun e => .step e x (Pattern.testOf tag) es) hkeeps (fun q m hm => ?_) hstep
  obtain ⟨halong, r, rfl, -⟩ := hkept (.tree q) m hm
  exact ⟨halong, r, rfl⟩

theorem Within.descend (h : Within d B f f' e e') (hkeeps : Keeps d .descendantOrSelf B B') :
    Within d B' f f' (descend e) (descend e') := by
  refine h.along (g := Expr.descend) hkeeps (fun q m hm => ?_) eval_descend
  have halong := (List.mem_filter.1 hm).1
  exact ⟨halong, Pattern.exists_tree_of_descendantOrSelf halong⟩

/-- An element and all below it are among all that is in the document. -/
theorem within_here (d : Document) (n : Path) (f' : Focus) :
    Within d (n <+: ·) ⟨.tree n, 0, 0⟩ f' (Expr.descend .here) (Expr.descend .root) := by
  refine ⟨_, _, eval_descend rfl, eval_descend rfl, fun m hm => ?_⟩
  rw [Node.mem_ordered_iff, List.flatMap_singleton, List.mem_filter] at hm
  obtain ⟨hm, halong, hnode⟩ := hm
  obtain ⟨r, rfl⟩ := Pattern.exists_tree_of_descendantOrSelf halong
  have hr := Node.tree_mem_all.1 hm
  -- Whatever lies below the element lies below the document, of which the path is empty.
  refine ⟨?_, r, rfl, (Pattern.mem_descendantOrSelf_iff hr).1 halong⟩
  rw [Node.mem_ordered_iff, List.flatMap_singleton, List.mem_filter]
  exact ⟨hm, (Pattern.mem_descendantOrSelf_iff hr).2 List.nil_prefix, hnode⟩

theorem Within.union (ha : Within d B f f' a a') (hb : Within d B f f' b b') :
    Within d B f f' (.binary .union a b) (.binary .union a' b') := by
  obtain ⟨ns, ns', hns, hns', hn⟩ := ha
  obtain ⟨ms, ms', hms, hms', hm⟩ := hb
  refine ⟨_, _, eval_union hns hms, eval_union hns' hms', fun k hk => ?_⟩
  rw [Node.mem_ordered_iff, List.mem_append] at hk ⊢
  rcases hk.2 with hk' | hk'
  · exact ⟨⟨hk.1, .inl (hn k hk').1⟩, (hn k hk').2⟩
  · exact ⟨⟨hk.1, .inr (hm k hk').1⟩, (hm k hk').2⟩

/-! ## Nodes that are all found

For equality it is not enough that the steps are the same, since from fewer nodes fewer are found. A
single step to children is different: each node has one parent, and the parent of a node below the
element is at or below it. -/

/-- An expression comes to those nodes with a property that another expression comes to for another
focus, in the same order. -/
def Filters (d : Document) (S : Path → Bool) (f f' : Focus) (e e' : Expr) : Prop :=
  ∃ ns, eval d f' e' = some (.nodes ns) ∧
    eval d f e = some (.nodes (ns.filter (Node.onTree S)))

theorem Filters.union {S : Path → Bool} (ha : Filters d S f f' a a') (hb : Filters d S f f' b b') :
    Filters d S f f' (.binary .union a b) (.binary .union a' b') := by
  obtain ⟨ns, hns', hns⟩ := ha
  obtain ⟨ms, hms', hms⟩ := hb
  refine ⟨_, eval_union hns' hms', (eval_union hns hms).trans ?_⟩
  rw [Node.ordered, Node.ordered, List.filter_filter, ← List.filter_append]
  refine congrArg (fun l => some (Value.nodes l)) (List.filter_congr fun m _ => ?_)
  rw [Bool.eq_iff_iff, Bool.and_eq_true, List.contains_iff_mem, List.contains_iff_mem,
    List.mem_filter, and_comm]

/-- What reaches a node as a child is its parent. -/
theorem parent_of_mem_child {k : Node} {q : Path} (h : .tree q ∈ k.along d .child) :
    ∃ r, k = .tree r ∧ Document.parent? q = some r := by
  cases k with
  | tree r =>
    have halong : (Node.tree r).along d .child = (d.children r).map .tree := rfl
    rw [halong, Pattern.mem_map_tree] at h
    exact ⟨r, rfl, Document.parent?_of_mem_children h⟩
  | attributeOf r i => cases h

/-- The step to the children of what is at or below an element misses no child below the element
that is found from anywhere. -/
theorem filters_child (hd : d.IsTree) {tag : Text} {es : List Expr} (hes : ∀ e ∈ es, Total d e)
    (n : Path) (f' : Focus) :
    Filters d (fun q => (Path.ancestors q).contains n) ⟨.tree n, 0, 0⟩ f'
      (.step (Expr.descend .here) .child (Pattern.testOf tag) es)
      (.step (Expr.descend .root) .child (Pattern.testOf tag) es) := by
  obtain ⟨ns, ns', hns, hns', hall⟩ := within_here d n f'
  -- What is kept of the children of a node depends on that node only.
  obtain ⟨kept, hkept, hstep⟩ := exists_kept (d := d) tag (a := .child) (by decide) hes
  refine ⟨_, hstep hns', (hstep hns).trans ?_⟩
  rw [Node.ordered, Node.ordered, List.filter_filter]
  refine congrArg (fun l => some (Value.nodes l)) (List.filter_congr fun m _ => ?_)
  rw [Bool.eq_iff_iff, Bool.and_eq_true, List.contains_iff_mem, List.contains_iff_mem,
    List.mem_flatMap, List.mem_flatMap]
  -- A node that is found from below is found from anywhere; and one that is found from anywhere and
  -- lies below is reached from its parent.
  constructor
  · rintro ⟨k, hk, hm⟩
    obtain ⟨hk', q, rfl, hq⟩ := hall k hk
    obtain ⟨halong, r, rfl, -⟩ := hkept _ m hm
    exact ⟨List.contains_iff_mem.2 (keeps_child q r hq halong), _, hk', hm⟩
  · rintro ⟨hbelow, k, -, hm⟩
    obtain ⟨halong, q, rfl, hq⟩ := hkept k m hm
    -- What reaches the child from the element is its parent, as `k` is.
    have hhere : eval d ⟨.tree n, 0, 0⟩ .here = some (.nodes [.tree n]) := rfl
    obtain ⟨ns₂, hns₂, hreach⟩ :=
      Pattern.reaches_descend hd hhere fun k hk => ⟨n, List.mem_singleton.1 hk⟩
    cases hns.symm.trans hns₂
    have hreached : (ns.any fun k => (k.along d .child).contains (.tree q)) = true := by
      rw [hreach q hq, List.any_eq_true]
      exact ⟨n, List.contains_iff_mem.1 hbelow, by simp⟩
    obtain ⟨k', hk', halong'⟩ := List.any_eq_true.1 hreached
    obtain ⟨r, rfl, hr⟩ := parent_of_mem_child halong
    obtain ⟨r', rfl, hr'⟩ := parent_of_mem_child (List.contains_iff_mem.1 halong')
    cases hr.symm.trans hr'
    exact ⟨_, hk', hm⟩

end

end XPath.Expr

namespace Pattern

section

variable {d : Document} {f f' : Focus} {start start' : Expr} {B B' : Path → Prop} {a : Axis}
  {n : Path}

/-! ## Chains

In the induction along a chain the hypothesis is about what the beginning comes to in two foci; the
links are the same on both sides. -/

/-- The predicates of an element have a value for every element. -/
theorem Element.total_predicates (hd : d.IsTree) (e : Element) :
    ∀ x ∈ e.predicates.map (·.2), Total d x := by
  rw [predicates, List.forall_mem_map, List.forall_mem_append, List.forall_mem_map,
    List.forall_mem_map]
  exact ⟨fun t _ => (t.steady hd).total, fun c _ => Condition.total_of hd (c.steady hd)⟩

theorem Element.within (hd : d.IsTree) {e : Element} {es : List Expr}
    (he : e.isResultScoped = false) (hs : Within d B f f' start start') (ha : a ≠ .attributes)
    (hkeeps : Keeps d a B B') (hes : ∀ x ∈ es, Total d x) :
    Within d B' f f' (e.stretch start a es).expr (e.stretch start' a es).expr := by
  rw [e.stretch_eq he, e.stretch_eq he]
  exact hs.step ha hkeeps (List.forall_mem_append.2 ⟨hes, e.total_predicates hd⟩)

theorem Chain.isResultScoped_last_of_isUnscoped {c : Chain} (h : c.isUnscoped = true) :
    c.last.isResultScoped = false := by
  cases c with
  | start => simpa [isUnscoped, last] using h
  | link b o e =>
    rw [isUnscoped, Bool.and_eq_true] at h
    simpa [last] using h.2

/-- The steps of a chain stay below an element once the first has led there. -/
theorem Chain.within (hd : d.IsTree) (hs : Within d B f f' start start') (ha : a ≠ .attributes)
    (hkeeps : Keeps d a B (n ∈ Path.ancestors ·)) : ∀ c : Chain, c.isUnscoped = true →
      Within d (n ∈ Path.ancestors ·) f f' (c.stretch start a).expr (c.stretch start' a).expr
  | .start _ e, h => e.within hd (by simpa [isUnscoped] using h) hs ha hkeeps (List.forall_mem_nil _)
  | .link b o e, h => by
    rw [isUnscoped, Bool.and_eq_true, Bool.not_eq_true'] at h
    have hb := Chain.within hd hs ha hkeeps b h.1
    cases o with
    | none =>
      exact e.within hd h.2 (hb.descend keeps_descendantOrSelf) (by decide) keeps_child
        (List.forall_mem_nil _)
    | some o =>
      cases o with
      | child =>
        -- One step down, it would be enough to have come to the element itself.
        refine e.within hd h.2 (hb.mono fun q hq => ?_) (by decide) keeps_child
          (List.forall_mem_nil _)
        exact (Path.mem_ancestors_iff.1 hq).1
      | sibling =>
        exact e.within hd h.2 hb (by decide) keeps_followingSibling (List.forall_mem_nil _)
      | adjacent =>
        rw [Chain.stretch_adjacent, Chain.stretch_adjacent,
          isResultScoped_last_of_isUnscoped h.1, if_neg Bool.false_ne_true,
          if_neg Bool.false_ne_true]
        exact e.within hd h.2 hb (by decide) keeps_followingSibling
          (List.forall_mem_singleton.2 (steady_of_truth (truth_nearest (b.steady_last hd))).total)

/-! ## Patterns

The relation between the two expressions of a chain is lifted to their unions, for any relation that
unions keep. -/

/-- What unions of related paths have in common with the paths. -/
theorem rel_anchoredExpr {R : Expr → Expr → Prop} (hunion : ∀ {a a' b b'}, R a a' → R b b' →
    R (.binary .union a b) (.binary .union a' b')) {p : Pattern} (hne : p ≠ [])
    (h : ∀ c ∈ p, R c.anchoredExpr c.pathExpr) : R (anchoredExpr p) (expr p) := by
  -- The paths are joined from the left.
  have hfold : ∀ (r : List Chain) {e e' : Expr}, R e e' →
      (∀ c ∈ r, R c.anchoredExpr c.pathExpr) →
      R ((r.map Chain.anchoredExpr).foldl (.binary .union) e)
        ((r.map Chain.pathExpr).foldl (.binary .union) e') := by
    intro r
    induction r with
    | nil => exact fun he _ => he
    | cons c r ih =>
      intro e e' he hr
      rw [List.forall_mem_cons] at hr
      exact ih (hunion he hr.1) hr.2
  cases p with
  | nil => exact absurd rfl hne
  | cons c r =>
    rw [List.forall_mem_cons] at h
    exact hfold r h.1 h.2

/-- From an element, the expression of a pattern comes to nodes below it, all of which it comes to
from the document. -/
theorem within_anchoredExpr (hd : d.IsTree) {p : Pattern} (hne : p ≠ [])
    (hopening : ∀ c ∈ p, c.opening = none) (hunscoped : ∀ c ∈ p, c.isUnscoped = true) (n : Path)
    (f' : Focus) :
    Within d (n ∈ Path.ancestors ·) ⟨.tree n, 0, 0⟩ f' (anchoredExpr p) (expr p) := by
  refine rel_anchoredExpr (fun ha hb => ha.union hb) hne fun c hc => ?_
  rw [Chain.anchoredExpr, Chain.pathExpr, hopening c hc]
  exact Chain.within hd (a := .child) (within_here d n f') (by decide) keeps_child c
    (hunscoped c hc)

/-- Where each chain is one element, the expression of the pattern comes from an element to all
nodes below it that it comes to from the document. -/
theorem filters_anchoredExpr (hd : d.IsTree) {p : Pattern} (hne : p ≠ [])
    (hsingle : ∀ c ∈ p, ∃ e, c = .start none e ∧ e.isResultScoped = false) (n : Path)
    (f' : Focus) :
    Filters d (fun q => (Path.ancestors q).contains n) ⟨.tree n, 0, 0⟩ f' (anchoredExpr p)
      (expr p) := by
  refine rel_anchoredExpr (fun ha hb => ha.union hb) hne fun c hc => ?_
  obtain ⟨e, rfl, he⟩ := hsingle c hc
  show Filters d _ _ f' (e.stretch (Expr.descend .here) .child []).expr
    (e.stretch (Expr.descend .root) .child []).expr
  rw [e.stretch_eq he, e.stretch_eq he, List.nil_append]
  exact filters_child hd (e.total_predicates hd) n f'

end

end Pattern

end TreeQuery
