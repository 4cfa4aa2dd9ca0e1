import Mathlib.Data.List.Sort
import TreeQuery.Proofs.XPath.Nodes

/-!
# Nodes are selected once

The nodes that an expression comes to are a part of all nodes in document order, or a single node.
Therefore the elements that it selects are in document order and distinct, whatever the expression.

Main statements: `Document.pairwise_before_of_elementsFor` and `Document.nodup_of_elementsFor`.
-/

namespace TreeQuery

namespace XPath

/-! An expression may come to the context node alone, which need not be a node of the document. This
is why a single node is a case of its own. -/

/-- Some nodes in document order, or a single node. -/
def IsPart (d : Document) (ns : List Node) : Prop :=
  ns.Sublist (Node.all d) ∨ ∃ n, ns.Sublist [n]

theorem IsPart.sublist {d : Document} {ns ms : List Node} (h : IsPart d ns) (hms : ms.Sublist ns) :
    IsPart d ms :=
  h.imp hms.trans fun ⟨n, hn⟩ => ⟨n, hms.trans hn⟩

theorem isPart_ordered (d : Document) (found : List Node) : IsPart d (Node.ordered d found) :=
  .inl List.filter_sublist

/-- A predicate keeps some of the nodes. -/
theorem sublist_of_keep {predicate : Focus → Option Value} {size position : Nat}
    {ns kept : List Node} (h : keep predicate size position ns = some kept) :
    kept.Sublist ns := by
  fun_induction keep predicate size position ns generalizing kept with
  | case1 => cases h; exact .refl _
  | case2 => cases h
  | case3 => cases h
  | case4 position n r v _ rest hrest ih =>
    cases h
    split
    · exact (ih hrest).cons_cons n
    · exact (ih hrest).cons n

/-! ## Functions

The functions give texts, numbers and truth values, but for the one that looks up identifiers. None
of them can come to nodes out of order. -/

section

variable {d : Document} {arguments : List Value} {focus : Focus}

/-- A value that is a part of the document if it is a set of nodes. -/
def IsOrderly (d : Document) (o : Option Value) : Prop :=
  ∀ ns, o = some (.nodes ns) → IsPart d ns

/-- A choice between orderly values. -/
theorem IsOrderly.ite {c : Prop} [Decidable c] {a b : Option Value} (ha : IsOrderly d a)
    (hb : IsOrderly d b) : IsOrderly d (if c then a else b) := by
  split
  · exact ha
  · exact hb

theorem isOrderly_ofNode (f : Node → Text) : IsOrderly d (Function.ofNode f arguments focus) := by
  intro ns h
  unfold Function.ofNode at h
  split at h <;> cases h

theorem isOrderly_ofText {f : Text → Value} (hf : ∀ t ms, f t ≠ .nodes ms) :
    IsOrderly d (Function.ofText d f arguments focus) := by
  intro ns h
  unfold Function.ofText at h
  split at h <;> simp [hf] at h

theorem isOrderly_ofTexts {f : Text → Text → Value} (hf : ∀ s t ms, f s t ≠ .nodes ms) :
    IsOrderly d (Function.ofTexts d f arguments) := by
  intro ns h
  unfold Function.ofTexts at h
  split at h <;> simp [hf] at h

theorem isOrderly_ofNumber (f : Number → Number) :
    IsOrderly d (Function.ofNumber d f arguments) := by
  intro ns h
  unfold Function.ofNumber at h
  split at h <;> cases h

theorem isOrderly_constant {v : Value} (hv : ∀ ms, v ≠ .nodes ms) :
    IsOrderly d (Function.constant v arguments) := by
  intro ns h
  unfold Function.constant at h
  split at h <;> simp [hv] at h

/-- The one function that comes to nodes puts them into document order. -/
theorem isOrderly_call (d : Document) (name : Text) (arguments : List Value) (focus : Focus) :
    IsOrderly d (Function.call d name arguments focus) := by
  unfold Function.call
  repeat' apply IsOrderly.ite
  all_goals first
    | exact isOrderly_ofNode _
    | exact isOrderly_ofText nofun
    | exact isOrderly_ofTexts nofun
    | exact isOrderly_ofNumber _
    | exact isOrderly_constant nofun
    | (intro ns h; split at h <;> cases h <;> exact isPart_ordered d _)
    | (intro ns h; cases h)

end

/-! ## Expressions

Steps and unions sort what they come to. A predicate behind parentheses does not, but it only leaves
nodes out; so the induction has to go through filters and nothing else. -/

theorem Operator.isPart_of_apply {d : Document} {o : Operator} {a b : Value} {ns : List Node}
    (h : o.apply d a b = some (.nodes ns)) : IsPart d ns := by
  unfold Operator.apply at h
  repeat' split at h
  all_goals cases h
  exact isPart_ordered d _

/-- What an expression comes to is a part of the document. The induction is on the sets that are
filtered; all else puts nodes into order. -/
theorem Expr.isPart_of_eval {d : Document} {f : Focus} : ∀ (e : Expr) {ns : List Node},
    eval d f e = some (.nodes ns) → IsPart d ns
  | .number _, _, h | .literal _, _, h | .variable _, _, h => by rw [eval] at h; cases h
  | .call function arguments, _, h => by
    rw [eval] at h
    repeat' split at h
    · cases h
    · exact isOrderly_call d _ _ _ _ h
    · cases h
  | .binary o a b, _, h => by
    rw [eval] at h
    repeat' split at h
    · cases h
    · cases h
    · cases h
    · exact Operator.isPart_of_apply h
  | .negated e, _, h | .converted e, _, h => by
    rw [eval] at h
    obtain ⟨v, -, hv⟩ := Option.map_eq_some_iff.1 h
    cases hv
  | .root, _, h => by
    rw [eval_root] at h
    cases h
    exact .inr ⟨_, .refl _⟩
  | .here, _, h => by
    rw [eval_here] at h
    cases h
    exact .inr ⟨_, .refl _⟩
  | .step start axis test predicates, _, h => by
    rw [eval] at h
    repeat' split at h
    · cases h
    · obtain ⟨found, -, hfound⟩ := Option.map_eq_some_iff.1 h
      cases hfound
      exact isPart_ordered d _
    · cases h
  | .filter set predicate, _, h => by
    rw [eval] at h
    split at h
    · cases h
    · next ms hms =>
      obtain ⟨kept, hkept, hns⟩ := Option.map_eq_some_iff.1 h
      cases hns
      obtain ⟨v, hv, hnodes⟩ := Option.bind_eq_some_iff.1 hms
      cases v <;> cases hnodes
      exact (isPart_of_eval set hv).sublist (sublist_of_keep hkept)

end XPath

namespace Document

open XPath

theorem filterMap_all_element? (d : Document) :
    (Node.all d).filterMap (·.element? d) = d.elements := by
  rw [Node.filterMap_element?, Node.filterMap_all]
  rfl

theorem before_self (p : Path) : Path.before p p = false := by
  induction p with
  | nil => rfl
  | cons i p ih => simp [Path.before, ih]

/-- Of two paths one comes first at most. -/
theorem before_asymm {p q : Path} (h : Path.before p q = true) : Path.before q p = false := by
  induction p generalizing q with
  | nil =>
    cases q with
    | nil => cases h
    | cons j q => rfl
  | cons i p ih =>
    cases q with
    | nil => cases h
    | cons j q =>
      simp only [Path.before, Bool.or_eq_true, Bool.and_eq_true, decide_eq_true_eq,
        beq_iff_eq] at h
      rcases h with h | ⟨rfl, h⟩
      · simp [Path.before, Nat.not_lt.2 h.le, h.ne']
      · simp [Path.before, ih h]

/-- Paths in document order are distinct, as each comes before the next. -/
theorem nodup_of_pairwise_before {ps : List Path}
    (h : ps.Pairwise fun p q => Path.before p q = true) : ps.Nodup := by
  refine h.imp fun {p q} hbefore he => ?_
  subst he
  rw [before_self] at hbefore
  cases hbefore

/-- Paths in document order are told by which they are. -/
theorem eq_of_pairwise_before {ps qs : List Path}
    (hps : ps.Pairwise fun p q => Path.before p q = true)
    (hqs : qs.Pairwise fun p q => Path.before p q = true) (h : ∀ p, p ∈ ps ↔ p ∈ qs) :
    ps = qs := by
  have : Std.Antisymm fun p q : Path => Path.before p q = true :=
    ⟨fun p q hpq hqp => absurd hqp (by rw [before_asymm hpq]; decide)⟩
  have : Std.Irrefl fun p q : Path => Path.before p q = true :=
    ⟨fun p hp => absurd hp (by rw [before_self]; decide)⟩
  exact hps.eq_of_mem_iff hqs h

theorem nodup_elements (d : Document) : d.elements.Nodup :=
  nodup_of_pairwise_before (pairwise_before_elements d)

/-- The elements among a part of the document are in document order. -/
theorem pairwise_before_of_isPart {d : Document} {ns : List Node} (h : IsPart d ns) :
    (ns.filterMap (·.element? d)).Pairwise fun p q => Path.before p q = true := by
  rcases h with h | ⟨n, h⟩
  · refine List.Pairwise.sublist (h.filterMap _) ?_
    rw [filterMap_all_element?]
    exact pairwise_before_elements d
  · refine List.Pairwise.sublist (h.filterMap _) ?_
    rw [List.filterMap_cons]
    cases n.element? d <;> simp

/-- The elements that an expression selects are in document order. -/
theorem pairwise_before_of_elementsFor {d : Document} {context : Option Path} {expression : Text}
    {ps : List Path} (h : d.elementsFor context expression = .ok ps) :
    ps.Pairwise fun p q => Path.before p q = true := by
  unfold elementsFor at h
  split at h
  · simp only at h
    split at h
    · next ns hns =>
      cases h
      obtain ⟨e, -, hselect⟩ := Option.bind_eq_some_iff.1 hns
      obtain ⟨v, hv, hnodes⟩ := Option.bind_eq_some_iff.1 hselect
      cases v <;> cases hnodes
      exact pairwise_before_of_isPart (Expr.isPart_of_eval e hv)
    · cases h
  · cases h

/-- The elements that an expression selects are distinct. -/
theorem nodup_of_elementsFor {d : Document} {context : Option Path} {expression : Text}
    {ps : List Path} (h : d.elementsFor context expression = .ok ps) : ps.Nodup :=
  nodup_of_pairwise_before (pairwise_before_of_elementsFor h)

end Document

end TreeQuery
