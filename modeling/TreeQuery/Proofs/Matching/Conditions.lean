import TreeQuery.Proofs.Matching.Attributes

/-!
# Conditions that an element alone decides

The pseudo-classes that look at the neighbours, the contents and the tag of an element, and the
search for a text directly inside it.

Main statements: `StaticPseudo.truth` and `truth_holdsText`.
-/

namespace TreeQuery

open XPath XPath.Expr StaticPseudo

section

variable {d : Document} {axis : Axis} {f : Focus} {p : Path}
  {es : List Expr} {Ts : List (Path → Bool)}

theorem any_elements_contains (d : Document) (l : List Path) :
    (d.elements.any fun q => (l.map Node.tree).contains (.tree q)) = l.any d.isElement := by
  rw [Bool.eq_iff_iff, List.any_eq_true, List.any_eq_true]
  constructor
  · rintro ⟨q, hq, hmem⟩
    obtain ⟨r, hr, heq⟩ := List.mem_map.1 (List.contains_iff_mem.1 hmem)
    cases heq
    exact ⟨q, hr, Document.mem_elements_iff.1 hq⟩
  · rintro ⟨q, hq, he⟩
    exact ⟨q, Document.mem_elements_iff.2 he,
      List.contains_iff_mem.2 (List.mem_map.2 ⟨q, hq, rfl⟩)⟩

/-! ## Neighbours

A neighbour is asked for by a step on an axis of siblings, or to the parent, without a test of the
name. Such a step finds elements, so that text and comments between siblings make no difference. The
pseudo-classes look for the nearest sibling, the step for any; one is there if the other is. -/

/-- The step on an axis finds the elements on it. -/
theorem finds_onAxis (d : Document) (f : Focus) (ha : axis ≠ .attributes) :
    Finds d f (onAxis axis) fun q => (f.node.along d axis).contains (.tree q) := by
  have h : Finds d f (onAxis axis) _ :=
    eval_step [] rfl ha .nil
  refine h.trans (congrArg (fun ns => some (Value.nodes ns)) ?_)
  refine Document.nodesWhere_congr fun q _ => ?_
  simp [Document.hasTag]

/-- Whether there are elements on an axis that lists nodes of the trees. -/
theorem truth_onAxis (axis : Axis) (g : Path → List Path) (ha : axis ≠ .attributes)
    (hg : ∀ p, Node.alongFrom d axis p = (g p).map .tree) :
    Truth d (onAxis axis) fun p => (g p).any d.isElement := by
  have hfinds := truth_of_finds (S := fun p q => ((Node.tree p).along d axis).contains (.tree q))
    fun p _ position size => finds_onAxis d ⟨.tree p, position, size⟩ ha
  refine hfinds.congr fun p _ => ?_
  rw [← any_elements_contains]
  exact congrArg (fun l : List Node => d.elements.any fun q => l.contains (.tree q)) (hg p)

/-- Its negation is true where there are none. -/
theorem truth_noneOn (axis : Axis) (g : Path → List Path) (ha : axis ≠ .attributes)
    (hg : ∀ p, Node.alongFrom d axis p = (g p).map .tree) :
    Truth d (noneOn axis) fun p => !(g p).any d.isElement :=
  truth_not (truth_onAxis axis g ha hg)

/-- That none has a property is that none is found. -/
theorem not_any_eq_isNone (l : List Path) (T : Path → Bool) :
    (!l.any T) = (l.find? T).isNone := by
  rw [Bool.eq_iff_iff, Option.isNone_iff_eq_none, List.find?_eq_none]
  simp

theorem truth_firstChild : Truth d (noneOn .precedingSibling) fun p =>
    (d.previousElement? p).isNone :=
  (truth_noneOn .precedingSibling d.earlierSiblings nofun fun _ => rfl).congr fun _ _ =>
    not_any_eq_isNone ..

theorem truth_lastChild : Truth d (noneOn .followingSibling) fun p =>
    (d.nextElement? p).isNone :=
  (truth_noneOn .followingSibling d.laterSiblings nofun fun _ => rfl).congr fun _ _ => not_any_eq_isNone ..

theorem truth_root : Truth d (noneOn .parent) fun p =>
    !(Document.parent? p).any d.isElement := by
  refine (truth_noneOn .parent (fun p => (Document.parent? p).toList) nofun fun _ => rfl).congr ?_
  intro p _
  cases Document.parent? p <;> simp

/-! ## Contents

The emptiness of an element is asked for with two numbers: how many elements it has as children, and
how long its text is, at any depth. Comments and instructions are no part of either. -/

/-- The number of children is zero just where there are none. -/
theorem eval_childCount (p : Path) (position size : Nat) : ∃ n : Nat,
    eval d ⟨.tree p, position, size⟩ childCount = some (.number (.whole n)) ∧
      (n = 0 ↔ (d.elementChildren p).isEmpty = true) := by
  have h : Finds d ⟨.tree p, position, size⟩ (onAxis .child) fun q =>
      ((d.children p).map Node.tree).contains (.tree q) := finds_onAxis d _ nofun
  refine ⟨(d.nodesWhere fun q =>
    ((d.children p).map Node.tree).contains (.tree q)).length, ?_, ?_⟩
  · have hargs : evalAll d ⟨.tree p, position, size⟩ [.step .here .child .anyName []] =
        some [.nodes (d.nodesWhere fun q =>
          ((d.children p).map Node.tree).contains (.tree q))] := by
      rw [Finds, onAxis] at h
      rw [evalAll, h]
      rfl
    rw [childCount, eval_call hargs]
    rfl
  · -- The number itself is of no use, only whether it is zero, which is asked of the list.
    rw [List.length_eq_zero_iff, List.isEmpty_iff, Document.elementChildren,
      List.filter_eq_nil_iff, List.eq_nil_iff_forall_not_mem]
    constructor
    · intro hnone q hq he
      refine hnone _ (Document.tree_mem_nodesWhere.2 ⟨he, ?_⟩)
      exact List.contains_iff_mem.2 (List.mem_map.2 ⟨q, hq, rfl⟩)
    · intro hnone n hn
      obtain ⟨q, rfl, he, hq⟩ := Document.mem_nodesWhere.1 hn
      obtain ⟨r, hr, heq⟩ := List.mem_map.1 (List.contains_iff_mem.1 hq)
      cases heq
      exact hnone q hr he

/-- The text of an element is that of what is below it. -/
theorem stringValue_tree (hp : d.isElement p = true) :
    (Node.tree p).stringValue d = (d.below p).stringValue := by
  rw [Document.isElement] at hp
  rw [Node.stringValue]
  cases hl : d.label? p with
  | none => rfl
  | some l =>
    rw [hl] at hp
    cases l with
    | element => rfl
    | text | comment | instruction | reference => cases hp

theorem eval_textLength (hp : d.isElement p = true) (position size : Nat) :
    eval d ⟨.tree p, position, size⟩ textLength =
      some (.number (.whole (d.below p).stringValue.length)) := by
  rw [← stringValue_tree hp]
  rfl

theorem eval_isZero {e : Expr} {n : Nat} (h : eval d f e = some (.number (.whole n))) :
    eval d f (.binary .equal e (.number (.whole 0))) = some (.boolean (decide (n = 0))) := by
  have hzero : ((n : Int) == 0) = decide (n = 0) := by
    rw [Bool.eq_iff_iff, beq_iff_eq, decide_eq_true_iff]
    omega
  rw [eval, h, ← hzero]
  rfl

theorem eval_isPositive {e : Expr} {n : Nat} (h : eval d f e = some (.number (.whole n))) :
    eval d f (.binary .greater e (.number (.whole 0))) = some (.boolean (decide (n ≠ 0))) := by
  have hpositive : decide ((0 : Int) < n) = decide (n ≠ 0) := by
    rw [Bool.eq_iff_iff, decide_eq_true_iff, decide_eq_true_iff]
    omega
  rw [eval, h, ← hpositive]
  rfl

theorem truth_empty : Truth d StaticPseudo.empty.expr fun p =>
    (d.elementChildren p).isEmpty && (d.below p).stringValue.isEmpty := by
  refine truth_of_boolean fun p hp position size => ?_
  obtain ⟨n, hn, hzero⟩ := eval_childCount (d := d) p position size
  rw [StaticPseudo.expr, eval_and (eval_isZero hn) (eval_isZero (eval_textLength hp ..))]
  refine congrArg (fun b => some (Value.boolean b)) ?_
  rw [Bool.eq_iff_iff]
  simp [Value.toBool, hzero]

theorem truth_notEmpty : Truth d StaticPseudo.notEmpty.expr fun p =>
    !((d.elementChildren p).isEmpty && (d.below p).stringValue.isEmpty) := by
  refine truth_of_boolean fun p hp position size => ?_
  obtain ⟨n, hn, hzero⟩ := eval_childCount (d := d) p position size
  rw [StaticPseudo.expr, eval_or (eval_isPositive hn) (eval_isPositive (eval_textLength hp ..))]
  refine congrArg (fun b => some (Value.boolean b)) ?_
  rw [Bool.eq_iff_iff]
  simp [Value.toBool, hzero, Classical.or_iff_not_imp_left]

theorem truth_parent : Truth d StaticPseudo.parent.expr fun p =>
    !(d.elementChildren p).isEmpty := by
  refine truth_of_boolean fun p hp position size => ?_
  obtain ⟨n, hn, hzero⟩ := eval_childCount (d := d) p position size
  rw [StaticPseudo.expr, eval_isPositive hn]
  refine congrArg (fun b => some (Value.boolean b)) ?_
  rw [Bool.eq_iff_iff]
  simp [hzero]

/-! ## The element itself

The tags of headers are asked for by steps to the element itself, which find one node or none.
`truth_self` is said for any tag and any predicates, as the row of such steps is gone through by
induction. -/

/-- What is asked of the context node itself. -/
theorem truth_self (d : Document) (tag : Text) (hes : List.Forall₂ (Truth d) es Ts) :
    Truth d (.step .here .self (Pattern.testOf tag) es) fun p =>
      d.hasTag tag p && Ts.all (· p) := by
  have hhere (f : Focus) : eval d f .here = some (.nodes [f.node]) := rfl
  have hfinds := truth_of_finds (S := fun p q => [Node.tree p].any (fun n =>
    (n.along d .self).contains (.tree q)) && d.hasTag tag q && Ts.all (· q))
      fun p _ position size => eval_step (f := ⟨.tree p, position, size⟩) tag (hhere _) nofun hes
  refine hfinds.congr fun p hp => ?_
  -- On this axis there is no node but the one it begins at.
  have hself (q : Path) : ([Node.tree p].any fun n => (n.along d .self).contains (.tree q)) =
      (q == p) := by
    rw [Bool.eq_iff_iff]
    simp [Node.along, Node.alongFrom]
  simp only [hself]
  rw [Bool.eq_iff_iff, List.any_eq_true]
  constructor
  · rintro ⟨q, -, h⟩
    rw [Bool.and_eq_true, Bool.and_eq_true, beq_iff_eq] at h
    obtain ⟨⟨rfl, htag⟩, hall⟩ := h
    rw [htag, hall]
    rfl
  · intro h
    refine ⟨p, Document.mem_elements_iff.2 hp, ?_⟩
    rw [beq_self_eq_true, Bool.true_and]
    exact h

theorem truth_header : Truth d StaticPseudo.header.expr fun p =>
    headerTags.any fun n => d.hasTag n p := by
  have hnamed (n : Text) (h : (n.isEmpty || n == ['*']) = false) :
      Truth d (isNamed n) (d.hasTag n) := by
    have := truth_self d n .nil
    rw [Pattern.testOf, h] at this
    exact this.congr fun p _ => Bool.and_true _
  have hall (ns : List Text) (h : ns.all (fun n => !(n.isEmpty || n == ['*'])) = true) :
      List.Forall₂ (Truth d) (ns.map isNamed) (ns.map d.hasTag) := by
    induction ns with
    | nil => exact .nil
    | cons n ns ih =>
      rw [List.all_cons, Bool.and_eq_true, Bool.not_eq_true'] at h
      exact .cons (hnamed n h.1) (ih h.2)
  exact (truth_anyOf (hall headerTags (by decide))).congr fun p _ => List.any_map ..

/-- A pseudo-class that asks for no position is true of the elements that are of it. -/
theorem StaticPseudo.truth (hd : d.IsTree) {s : StaticPseudo} (h : s.isPositional = false) :
    Truth d s.expr (s.holds d) := by
  cases s with
  | disabled =>
    intro p hp position size
    obtain ⟨v, hv, hlook⟩ := eval_lookup hd hp "disabled".toList position size
    exact ⟨v, hv, hlook.notNumber, hlook.toBool⟩
  | firstChild => exact truth_firstChild
  | lastChild => exact truth_lastChild
  | onlyChild => exact truth_and truth_firstChild truth_lastChild
  | empty => exact truth_empty
  | notEmpty => exact truth_notEmpty
  | parent => exact truth_parent
  | header => exact truth_header
  | root => exact truth_root
  | odd | even | first | last => cases h

/-! ## Texts

The texts are looked for in the text nodes directly inside the element and not in the text of the
whole element, so that a text that is divided by a tag is not found. -/

/-- A child is found if it is a text node that holds the text. -/
theorem passes_text_iff {t : Text} : (NodeTest.text.passes d .child (.tree p) = true ∧
    Text.holds ((Node.tree p).stringValue d) t = true) ↔
      ∃ s, d.label? p = some (.text s) ∧ t <:+: s := by
  have hlabel : Node.label? d (.tree p) = d.label? p := rfl
  rw [NodeTest.passes, hlabel, Node.stringValue, Text.holds_iff]
  cases d.label? p with
  | none => simp
  | some l => cases l <;> simp

/-- The search for a text is true of the elements with a text node directly inside that holds it. -/
theorem truth_holdsText (t : Text) : Truth d
    (.step .here .child .text [.call ⟨[], "contains".toList⟩ [.here, .literal t]])
    (Pattern.holdsText d t) := by
  intro p hp position size
  have hstep (n : Node) (position size : Nat) :
      eval d ⟨n, position, size⟩ (.call ⟨[], "contains".toList⟩ [.here, .literal t]) =
        some (.boolean (Text.holds (n.stringValue d) t)) :=
    eval_holds (v := .nodes [n]) rfl t
  -- The predicate does not ask for the position, so that keeping is filtering.
  have hkeep (ns : List Node) : keepAll d
      [.call ⟨[], "contains".toList⟩ [.here, .literal t]] ns =
        some (ns.filter fun n => Text.holds (n.stringValue d) t) := by
    rw [keepAll, keep_eq_filter fun n position => hstep n position _]
    rfl
  have heval : eval d ⟨.tree p, position, size⟩
      (.step .here .child .text [.call ⟨[], "contains".toList⟩ [.here, .literal t]]) =
        some (.nodes (Node.ordered d ((((d.children p).map Node.tree).filter
          (NodeTest.text.passes d .child)).filter fun n => Text.holds (n.stringValue d) t))) := by
    rw [eval, eval]
    simp only [hkeep]
    simp [Value.nodes?, gather, NodeTest.isBound, Node.along, Node.alongFrom]
  refine ⟨_, heval, fun _ => by rintro ⟨⟩, ?_⟩
  rw [Bool.eq_iff_iff, Value.toBool, Bool.not_eq_true', List.isEmpty_eq_false_iff_exists_mem,
    Pattern.holdsText, List.any_eq_true]
  constructor
  · rintro ⟨n, hn⟩
    obtain ⟨hn, hholds⟩ := List.mem_filter.1 (Node.mem_ordered_iff.1 hn).2
    obtain ⟨hn, htext⟩ := List.mem_filter.1 hn
    obtain ⟨q, hq, rfl⟩ := List.mem_map.1 hn
    obtain ⟨s, hs, hinfix⟩ := passes_text_iff.1 ⟨htext, hholds⟩
    refine ⟨q, hq, ?_⟩
    rw [hs]
    exact decide_eq_true hinfix
  · rintro ⟨q, hq, hholds⟩
    have : ∃ s, d.label? q = some (.text s) ∧ t <:+: s := by
      revert hholds
      cases d.label? q with
      | none => rintro ⟨⟩
      | some l =>
        cases l with
        | text s => exact fun h => ⟨s, rfl, of_decide_eq_true h⟩
        | element | comment | instruction | reference => rintro ⟨⟩
    obtain ⟨htext, hholds⟩ := passes_text_iff.2 this
    refine ⟨.tree q, Node.mem_ordered_iff.2 ⟨?_, ?_⟩⟩
    · exact Node.tree_mem_all.2 (.inr (Document.isSome_of_mem_children hq))
    · exact List.mem_filter.2 ⟨List.mem_filter.2 ⟨List.mem_map.2 ⟨q, hq, rfl⟩, htext⟩, hholds⟩

end

end TreeQuery
