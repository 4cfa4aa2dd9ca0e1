import TreeQuery.Proofs.NodeSet.Below
import TreeQuery.Proofs.Picking.Law

/-!
# The star with a condition

An element that counts nothing passes or does not, seen on its own. So a pattern of such elements,
each without a combinator in front, selects the elements that pass one of them; and the star with a
condition, which is one, selects the elements for which the condition is true. That its expression
can be evaluated at all is enough for the condition to be read as it is meant.

Main statement: `Document.eq_filter_of_star`.
-/

namespace TreeQuery

open XPath XPath.Expr

namespace Pattern

/-! ## Places in a row

Three things could make an element pass in one place and fail in another: to be every second, to be
the first or last of the result, and what is in front of it. The first is told from the conditions,
the second makes a path in parentheses, and the third is a combinator. An element that has none of
these is steady. -/

/-- Whether a condition counts the elements that a step comes to, to pass every second of them. -/
def Condition.counts : Condition → Bool
  | .static .odd => true
  | .static .even => true
  | _ => false

def Element.counts (e : Element) : Bool := e.conditions.any Condition.counts

/-- Whether a chain is one element, without a combinator in front, that counts nothing. -/
def Chain.asksOfOne : Chain → Bool
  | .start none e => !e.counts
  | _ => false

section

variable {e : Element} {c : Chain} {d : Document} {p : Path}

theorem Element.isSteady_of_not_counts (hcounts : e.counts = false)
    (hscoped : e.isResultScoped = false) : e.isSteady = true := by
  rw [counts, List.any_eq_false] at hcounts
  rw [isResultScoped, List.any_eq_false] at hscoped
  rw [isSteady, List.all_eq_true]
  intro c hc
  have hcounts := hcounts c hc
  have hscoped := hscoped c hc
  cases c with
  | static s => cases s <;> first | rfl | exact absurd rfl hcounts | exact absurd rfl hscoped
  | contains | not | has => rfl

/-- Such a chain is one element. -/
theorem Chain.exists_of_asksOfOne (h : c.asksOfOne = true) :
    ∃ e, c = .start none e ∧ e.counts = false := by
  cases c with
  | link => cases h
  | start o e =>
    cases o with
    | some => cases h
    | none => exact ⟨e, rfl, by simpa [asksOfOne] using h⟩

/-! ## Evaluation

An expression that has a value has been read, and what is read is what the pattern stands for. So
nothing is asked of tags or texts but that they are harmless: a tag that is no name would leave the
expression without a value. -/

/-- The path of a chain of one steady element comes to the elements that pass. -/
theorem Chain.finds_passing (hd : d.IsTree) (f : Focus) (h : c.asksOfOne = true)
    (hsteady : c.last.isSteady = true) : Finds d f c.pathExpr (c.last.passes d) := by
  obtain ⟨e, rfl, -⟩ := c.exists_of_asksOfOne h
  refine (e.finds_passing hd hsteady (reaches_anywhere hd) (by decide) .nil).congr fun p _ => ?_
  simp [last]

/-- Of the star with a condition only the condition is asked. -/
theorem passes_star (c : Condition) (p : Path) :
    (Element.mk ['*'] [] [c]).passes d p = truthAt d c.expr p := by
  simp [Element.passes, Element.tag, Element.tests, Element.conditions, Document.hasTag]

end

end Pattern

/-- What a pattern of single steady elements selects in a document, if it can be evaluated at all.
-/
theorem Document.eq_filter_of_elementsFor {d : Document} (hd : d.IsTree) {p : Pattern} (hne : p ≠ [])
    (hharmless : ∀ c ∈ p, c.Everywhere Pattern.Element.IsHarmless)
    (hone : ∀ c ∈ p, c.asksOfOne = true ∧ c.last.isSteady = true) {ps : List Path}
    (h : d.elementsFor none p.xpath = .ok ps) :
    (∀ c ∈ p, c.IsRead) ∧ ps = d.elements.filter fun q => p.any (·.last.passes d q) := by
  obtain ⟨-, e, ns, he, hns, rfl⟩ := elementsFor_eq_ok_iff.1 h
  have hopening : ∀ c ∈ p, c.opening = none := by
    intro c hc
    obtain ⟨e, rfl, -⟩ := c.exists_of_asksOfOne (hone c hc).1
    rfl
  have hread := Pattern.isRead_of_ofText? hharmless hopening he
  have hexpr : Expr.ofText? p.xpath = some (Pattern.expr p) := by
    refine (Pattern.reads_xpath_of_isRead hne fun c hc => ⟨hread c hc, ?_⟩).ofText?
    rw [Pattern.Chain.beginsAtRoot, hopening c hc]
    rfl
  cases he.symm.trans hexpr
  have hfinds := Pattern.finds_expr_of_forall hne fun c hc =>
    c.finds_passing hd ⟨.tree (d.root?.getD []), 0, 0⟩ (hone c hc).1 (hone c hc).2
  cases hns.symm.trans hfinds
  exact ⟨hread, filterMap_nodesWhere ..⟩

namespace Document

variable {d : Document} {ps : List Path}

theorem contains_filter_elements {S : Path → Bool} {p : Path} (hp : p ∈ d.elements) :
    (d.elements.filter S).contains p = S p := by
  rw [Bool.eq_iff_iff, List.contains_iff_mem, List.mem_filter]
  exact and_iff_right hp

/-- The star with a condition selects the elements for which the condition is true, if it can be
evaluated at all, and then the condition is read as it is meant. -/
theorem eq_filter_of_star (hd : d.IsTree) {c : Pattern.Condition} (hbare : c.IsBare)
    (hharmless : c.Everywhere Pattern.Element.IsHarmless) (hpositional : c.isPositional = false)
    (h : d.elementsFor none (Pattern.xpath [.start none (.mk ['*'] [] [c])]) = .ok ps) :
    ReadsPredicate c.predicate c.expr ∧ ps = d.elements.filter (truthAt d c.expr) := by
  have helement : (Pattern.Element.mk ['*'] [] [c]).IsHarmless :=
    ⟨.inl rfl, nofun, List.forall_mem_singleton.2 hbare⟩
  have hcounts : (Pattern.Element.mk ['*'] [] [c]).counts = false := by
    cases c with
    | static s => cases s <;> first | rfl | cases hpositional
    | contains | not | has => rfl
  have hsteady : (Pattern.Element.mk ['*'] [] [c]).isSteady = true := by
    simp [Pattern.Element.isSteady, Pattern.Element.conditions, hpositional]
  have hchain : (Pattern.Chain.start none (.mk ['*'] [] [c])).Everywhere
      Pattern.Element.IsHarmless := ⟨helement, hharmless, trivial⟩
  -- The star with the condition is itself a chain of one steady element.
  have hone : (Pattern.Chain.start none (.mk ['*'] [] [c])).asksOfOne = true := by
    simp [Pattern.Chain.asksOfOne, hcounts]
  obtain ⟨hread, rfl⟩ := eq_filter_of_elementsFor hd (List.cons_ne_nil _ _)
    (List.forall_mem_singleton.2 hchain) (List.forall_mem_singleton.2 ⟨hone, hsteady⟩) h
  refine ⟨(hread _ (List.mem_singleton_self _)).conditions c (List.mem_singleton_self c), ?_⟩
  refine List.filter_congr fun q _ => ?_
  rw [List.any_cons, List.any_nil, Bool.or_false]
  exact Pattern.passes_star c q

/-! ## Evaluating

To evaluate a selector in a sample, a pattern is given with the same expression, and what this
pattern selects is computed. Everything is decidable together. -/

section

variable {s : Text} {p : Pattern}

/-- That the expression of a selector, be it what the selector means or not, is that of a plain
pattern, and what is selected with it. -/
def Selects (d : Document) (s : Text) (p : Pattern) (ps : List Path) : Prop :=
  (Selector.compile { useCache := false } s).outcome {} = .ok p.xpath ∧
    Pattern.isPlain p = true ∧ p.xpath.all isCompatible = true ∧
    ((Pattern.expr p).select? d (.tree (d.root?.getD []))).map (·.filterMap (·.element? d)) = some ps

instance (d : Document) (s : Text) (p : Pattern) (ps : List Path) : Decidable (d.Selects s p ps) :=
  inferInstanceAs (Decidable (_ ∧ _))

theorem Selects.outcome (h : d.Selects s p ps) {m : Memory} (hm : m.cache.Sound) :
    (Selector.compile {} s).outcome m = .ok p.xpath := Selector.outcome_of_outcome_false h.1 hm

theorem Selects.elementsFor (h : d.Selects s p ps) : d.elementsFor none p.xpath = .ok ps :=
  elementsFor_of_isPlain h.2.1 h.2.2.1 h.2.2.2

end

end Document

/-! ## Samples -/

namespace Pattern

def onlyB (cs : List Condition) : Chain := .start none (.mk ['b'] [] cs)

def onlyClass (t : Text) : Chain := .start none (.mk [] [⟨"class".toList, some (.word, t)⟩] [])

end Pattern

end TreeQuery
