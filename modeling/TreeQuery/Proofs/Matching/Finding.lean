import TreeQuery.NodeSet.Search
import TreeQuery.Proofs.Compilation.Levels
import TreeQuery.Proofs.Expression.Characters
import TreeQuery.Proofs.Expression.Reading
import TreeQuery.Proofs.Matching.Chains
import TreeQuery.Proofs.Written.Reading

/-!
# Finding

To find a selector in a document is to compile it, to read the expression and to evaluate it. For a
selector whose pattern is plain, local and writable this comes to the elements that match the
pattern, in document order.

Main statements: `Document.elementsFor_xpath` and `Written.find_print`.
-/

namespace TreeQuery

namespace Query

variable {α β : Type}

/-! A query is a program over the memory of the compiler that may fail. The lemmas of this part
divide it into the compilation, which alone needs the memory, and the evaluation, which alone needs
the document; the rest of the module deals with the two halves. -/

def outcome (a : Query α) (m : Memory) : Except QueryError α := (a.run.run m).1

def after (a : Query α) (m : Memory) : Memory := (a.run.run m).2

/-- One query after another. -/
theorem outcome_bind (a : Query α) (f : α → Query β) (m : Memory) : (a >>= f).outcome m =
    match a.outcome m with
    | .ok v => (f v).outcome (a.after m)
    | .error e => .error e := by
  rw [outcome, ExceptT.run_run_bind]
  unfold outcome
  cases (a.run.run m).1 <;> rfl

/-- A query that compiles fails as the compilation does. -/
theorem outcome_compile (s : Text) (m : Memory) : (Query.compile s).outcome m =
    ((Selector.compile {} s).outcome m).mapError .selector := rfl

theorem outcome_ofExcept (a : Except QueryError α) (m : Memory) :
    (Query.ofExcept a).outcome m = a := by
  cases a <;> rfl

end Query

namespace NodeSet

section

variable {q : NodeSet} {d : Document}

/-- What is selected does not depend on the memory. -/
theorem outcome_select (hq : q.document = some d) (x : Text) (context : Option Path)
    (m : Memory) : (q.select x context).outcome m = d.elementsFor context x := by
  rw [select, hq]
  simp only [Query.outcome_bind]
  exact Query.outcome_ofExcept _ _

/-- The set of a whole document finds what the expression of the selector selects. -/
theorem outcome_find (hw : q.isWhole = true) (hq : q.document = some d) (s : Text) (m : Memory) :
    (q.find s).outcome m =
      match (Selector.compile {} s).outcome m with
      | .ok x => (d.elementsFor none x).map q.holding
      | .error e => .error (.selector e) := by
  rw [find, Query.outcome_bind, Query.outcome_compile]
  cases (Selector.compile {} s).outcome m with
  | error e => rfl
  | ok x =>
    simp only [Except.mapError, hw, if_true, Query.outcome_bind, outcome_select hq]
    cases d.elementsFor none x <;> rfl

end

end NodeSet

/-- What is selected in a document are the elements among the nodes that the expression comes to. -/
theorem Document.elementsFor_eq_ok_iff {d : Document} {context : Option Path} {x : Text} {ps : List Path} :
    d.elementsFor context x = .ok ps ↔ x.all isCompatible = true ∧ ∃ e ns,
      XPath.Expr.ofText? x = some e ∧
      XPath.Expr.eval d ⟨.tree ((context.or d.root?).getD []), 0, 0⟩ e = some (.nodes ns) ∧
      ns.filterMap (·.element? d) = ps := by
  rw [elementsFor]
  constructor
  · intro h
    split at h
    · next hx =>
      simp only at h
      split at h
      · next ns hns =>
        cases h
        obtain ⟨e, he, hselect⟩ := Option.bind_eq_some_iff.1 hns
        obtain ⟨v, hv, hnodes⟩ := Option.bind_eq_some_iff.1 hselect
        -- Only nodes can be selected from.
        cases v <;> cases hnodes
        exact ⟨hx, e, ns, he, hv, rfl⟩
      · cases h
    · cases h
  · rintro ⟨hx, e, ns, he, hns, rfl⟩
    rw [if_pos hx, he]
    simp only [Option.bind_some, XPath.Expr.select?, hns, XPath.Value.nodes?]

/-- What an expression selects is told by evaluating what its text is read as. -/
theorem Document.elementsFor_of_select? {d : Document} {context : Option Path} {x : Text}
    {e : XPath.Expr} (hx : x.all isCompatible = true) (he : XPath.Expr.ofText? x = some e)
    {ps : List Path} (h : (e.select? d (.tree ((context.or d.root?).getD []))).map
      (·.filterMap (·.element? d)) = some ps) : d.elementsFor context x = .ok ps := by
  obtain ⟨ns, hns, rfl⟩ := Option.map_eq_some_iff.1 h
  rw [elementsFor, if_pos hx, he]
  simp only [Option.bind_some, hns]

/-- Whether the elements that match a pattern are found as they are: the expression is read back as
it is meant, all its characters have a place in markup, no chain is opened by a sign, and each link
is told from the element and its place. -/
def Pattern.isMatchable (p : Pattern) : Bool :=
  isPlain p && p.all fun c => c.opening.isNone && c.isLocal && c.isWritable

/-- The expression of a matchable pattern selects the elements that match it. -/
theorem Document.elementsFor_xpath {d : Document} (hd : d.IsTree) {p : Pattern}
    (h : p.isMatchable = true) (context : Option Path) :
    d.elementsFor context p.xpath = .ok (d.elements.filter (p.matches d)) := by
  rw [Pattern.isMatchable, Bool.and_eq_true, List.all_eq_true] at h
  obtain ⟨hplain, hall⟩ := h
  simp only [Bool.and_eq_true, Option.isNone_iff_eq_none] at hall
  have hne : p ≠ [] := by
    rintro rfl
    cases hplain
  have hcompatible : p.xpath.all isCompatible = true :=
    Pattern.all_isCompatible_xpath hplain (List.all_eq_true.2 fun c hc => (hall c hc).2)
  have hfinds (f : XPath.Focus) := Pattern.finds_expr hd f hne
    (List.all_eq_true.2 fun c hc => (hall c hc).1.2) fun c hc => (hall c hc).1.1
  have hselect (start : Path) : (XPath.Expr.ofText? p.xpath).bind (·.select? d (.tree start)) =
      some (d.nodesWhere (p.matches d)) := by
    rw [Pattern.ofText?_xpath hplain, Option.bind_some, XPath.Expr.select?, hfinds]
    rfl
  -- The context makes no difference, as the expression begins at the root.
  rw [Document.elementsFor, hcompatible, if_pos rfl]
  simp only [hselect, Document.filterMap_nodesWhere]

/-- What the expression of a plain pattern selects is told by evaluating it. -/
theorem Document.elementsFor_of_isPlain {d : Document} {p : Pattern}
    (hplain : Pattern.isPlain p = true) (hcompatible : p.xpath.all isCompatible = true)
    {ps : List Path} (h : ((Pattern.expr p).select? d (.tree (d.root?.getD []))).map
      (·.filterMap (·.element? d)) = some ps) : d.elementsFor none p.xpath = .ok ps :=
  elementsFor_of_select? hcompatible (Pattern.ofText?_xpath hplain) h

/-- The text of a written selector whose pattern is matchable, in a document that has been loaded:
the query succeeds, and what it finds are the elements that match the pattern, in document order. -/
theorem Written.find_print (w : Written) (hw : w.pattern.isMatchable = true)
    (hn : w.pattern.nesting ≤ 32) {q : NodeSet} {d : Document} (hwhole : q.isWhole = true)
    (hq : q.document = some d) (hd : d.IsTree) {m : Memory} (hm : m.cache.Sound) :
    ∃ found, (q.find w.print).outcome m = .ok (q.holding found) ∧
      found.Pairwise (fun p r => Path.before p r = true) ∧
      ∀ p, p ∈ found ↔ d.isElement p = true ∧ w.pattern.matches d p = true := by
  have hcompile : (Selector.compile {} w.print).outcome m = .ok w.pattern.xpath :=
    Selector.outcome_of_nesting_le w.pattern_print (Int.ofNat_le.2 hn) hm
  refine ⟨d.elements.filter (w.pattern.matches d), ?_, ?_, fun p => ?_⟩
  · rw [NodeSet.outcome_find hwhole hq, hcompile]
    simp only [Document.elementsFor_xpath hd hw]
    rfl
  · exact d.pairwise_before_elements.filter _
  · rw [List.mem_filter, Document.mem_elements_iff]

/-! ## Samples

The two selectors at the end show why a pattern has to be matchable for this: they compile, and what
they compile to cannot be evaluated, one for its characters and the other for its name. -/

namespace Written

def list : Document where
  content := .cons (.element ⟨[], [], "ul".toList⟩ [] [])
    (.cons (.element ⟨[], [], "li".toList⟩ [] [⟨⟨[], [], "class".toList⟩, "a".toList, false⟩]) .nil
      (.cons (.element ⟨[], [], "li".toList⟩ [] []) .nil .nil)) .nil

theorem noBlank_a : ∀ c ∈ ['a'], Text.isBlank c = false := eq_false_of_all (by decide)

def classA : Item := .className ⟨['a'], by decide, eq_false_of_all (by decide), noBlank_a⟩

def besideA : Written where
  first := .link (.start none (.untagged classA [])) (some .sibling)
    (.tagged .any [.not (.start none (.untagged classA [])) []])
  others := [.start none
    (.tagged .any [.has (.start (some .child) (.untagged classA [])) []])]

example : besideA.print = ".a ~ *:not(.a), *:has(> .a)".toList := by decide

theorem find_print_besideA :
    besideA.pattern.isMatchable = true ∧ besideA.pattern.nesting ≤ 32 ∧ list.IsTree ∧
    ∃ found, ((NodeSet.ofDocument list true).find besideA.print).outcome {} =
        .ok ((NodeSet.ofDocument list true).holding found) ∧
      found.Pairwise (fun p r => Path.before p r = true) ∧
      ∀ p, p ∈ found ↔ list.isElement p = true ∧ besideA.pattern.matches list p = true :=
  ⟨by decide, by decide, Document.isTree_of_isProper (by decide),
    find_print besideA (by decide) (by decide) rfl rfl (Document.isTree_of_isProper (by decide))
      Cache.sound_empty⟩

/-- The selector of a class whose name has no place in markup. -/
def noncharacter : Written where
  first := .start none (.untagged (.className
    ⟨['\uFFFF'], by decide, eq_false_of_all (by decide), eq_false_of_all (by decide)⟩) [])
  others := []

/-- The selector `a\$b`; the sign has no place in the name of an element. -/
def unnameable : Written where
  first := .start none (.tagged (.named ⟨"a$b".toList, by decide, eq_false_of_all (by decide)⟩) [])
  others := []

/-- Not every class or tag that can be written can be looked for. -/
theorem find_print_fails :
    noncharacter.pattern.all Pattern.Chain.isLocal = true ∧
    unnameable.pattern.all Pattern.Chain.isLocal = true ∧ list.IsTree ∧
    ((NodeSet.ofDocument list true).find noncharacter.print).outcome {} = .error .incompatible ∧
    ((NodeSet.ofDocument list true).find unnameable.print).outcome {} =
      .error (.expression "//a$b".toList false) := by
  have hcompile (w : Written) (hn : w.pattern.nesting ≤ 32) :
      (Selector.compile {} w.print).outcome {} = .ok w.pattern.xpath :=
    Selector.outcome_of_nesting_le w.pattern_print (Int.ofNat_le.2 hn) Cache.sound_empty
  -- The name ends in front of the sign, and behind a path the sign can be nothing.
  have hunread : XPath.Expr.ofText? "//a$b".toList = none := by
    have hpath : XPath.Expr.ReadsPath true "//a".toList _ :=
      Pattern.Chain.readsPath (.start none (.mk ['a'] [] [])) (Pattern.Chain.isRead _ (by decide))
        (by decide)
    exact (hpath.operand (k := 0) (by decide)).ofText?_append (r := ['$', 'b'])
      (fun _ => by decide) (by decide) (by decide)
  refine ⟨by decide, by decide, Document.isTree_of_isProper (by decide), ?_, ?_⟩
  · rw [NodeSet.outcome_find rfl rfl, hcompile _ (by decide)]
    rfl
  · rw [NodeSet.outcome_find rfl rfl, hcompile _ (by decide)]
    have hcompatible : "//a$b".toList.all isCompatible = true := by decide
    have hxpath : unnameable.pattern.xpath = "//a$b".toList := by decide
    simp only [hxpath, Document.elementsFor, hcompatible, hunread]
    rfl

end Written

end TreeQuery
