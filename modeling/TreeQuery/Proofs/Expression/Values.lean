import TreeQuery.Proofs.Matching.Conditions

/-!
# Values of patterns

Whatever a pattern asks for, its expression has a value, and the steps of a chain come to elements.
Where they begin at the context node, its position has no part in it. Only the pseudo-classes that
ask for a position are told from the position of the context node.

Main statement: `Chain.settled`.
-/

namespace TreeQuery

open XPath XPath.Expr

namespace XPath.Expr

/-- An expression that has a value for every element. -/
def Total (d : Document) (e : Expr) : Prop :=
  ∀ p, d.isElement p = true → ∀ position size, ∃ v, eval d ⟨.tree p, position, size⟩ e = some v

/-- Whether an expression is true of an element by itself. -/
def truthAt (d : Document) (e : Expr) (p : Path) : Bool :=
  ((eval d ⟨.tree p, 0, 0⟩ e).map Value.toBool).getD false

/-- An expression whose truth does not depend on the position of the element. -/
def Steady (d : Document) (e : Expr) : Prop := Truth d e (truthAt d e)

/-- Expressions that come to one set of nodes for two foci. -/
def SameNodes (d : Document) (f f' : Focus) (e : Expr) : Prop :=
  ∃ ns, eval d f e = some (.nodes ns) ∧ eval d f' e = some (.nodes ns)

section

variable {d : Document} {e : Expr} {es : List Expr} {T : Path → Bool} {f f' : Focus} {a : Axis}
  {ns : List Node} {p : Path}

theorem steady_of_truth (h : Truth d e T) : Steady d e := by
  refine h.congr fun p hp => ?_
  obtain ⟨v, hv, -, ht⟩ := h p hp 0 0
  rw [truthAt, hv, ← ht]
  rfl

theorem Steady.total (h : Steady d e) : Total d e := by
  intro p hp position size
  obtain ⟨v, hv, -⟩ := h p hp position size
  exact ⟨v, hv⟩

/-! ## Predicates

A predicate that has a value for every element never makes the filtering of elements fail, whatever
the value is: it may be a number that is compared with the position. What is kept is a part of what
there was, and that is all that is said here. -/

/-- Keeping the elements for which a predicate holds does not fail. -/
theorem keep_of_total (h : Total d e) (hns : ∀ n ∈ ns, ∃ p, n = .tree p ∧ d.isElement p = true)
    (size position : Nat) : ∃ kept, keep (fun f => eval d f e) size position ns = some kept ∧
      kept.Sublist ns := by
  induction ns generalizing position with
  | nil => exact ⟨[], rfl, .slnil⟩
  | cons n ns ih =>
    obtain ⟨p, rfl, hp⟩ := hns n (List.mem_cons_self ..)
    obtain ⟨v, hv⟩ := h p hp position size
    obtain ⟨kept, hkept, hsub⟩ := ih (fun m hm => hns m (List.mem_cons_of_mem _ hm)) (position + 1)
    rw [keep, hv]
    simp only [hkept]
    refine ⟨_, rfl, ?_⟩
    split
    · exact hsub.cons_cons _
    · exact hsub.cons _

/-- Nor does it with several predicates. -/
theorem keepAll_of_total (h : ∀ e ∈ es, Total d e)
    (hns : ∀ n ∈ ns, ∃ p, n = .tree p ∧ d.isElement p = true) :
    ∃ kept, keepAll d es ns = some kept ∧ kept.Sublist ns := by
  induction es generalizing ns with
  | nil => exact ⟨ns, by rw [keepAll], List.Sublist.refl _⟩
  | cons e es ih =>
    obtain ⟨kept, hkept, hsub⟩ := keep_of_total (h e (List.mem_cons_self ..)) hns ns.length 1
    have hkeptNodes : ∀ n ∈ kept, ∃ p, n = .tree p ∧ d.isElement p = true :=
      fun n hn => hns n (hsub.subset hn)
    obtain ⟨rest, hrest, hsub'⟩ := ih (fun e he => h e (List.mem_cons_of_mem _ he)) hkeptNodes
    refine ⟨rest, ?_, hsub'.trans hsub⟩
    rw [keepAll, hkept]
    exact hrest

/-! ## Stretches

Two foci are compared throughout. If they have the same node but different positions, that the
expression comes to the same shows that its truth is a property of the node; if they are anything
else, the first step makes up for the difference. A stretch is settled when all that is missing are
predicates that have a value, so that giving it one more leaves it settled. -/

def SameElements (d : Document) (f f' : Focus) (e : Expr) : Prop :=
  ∃ ns, (∀ n ∈ ns, ∃ p, n = .tree p ∧ d.isElement p = true) ∧
    eval d f e = some (.nodes ns) ∧ eval d f' e = some (.nodes ns)

/-- A stretch that comes to elements, the same for two foci, and goes on doing so with predicates
that have a value. -/
def Stretch.Settled (d : Document) (f f' : Focus) : Stretch → Prop
  | step start a test es =>
    SameNodes d f f' start ∧ a ≠ .attributes ∧ (∃ tag, test = Pattern.testOf tag) ∧
      ∀ e ∈ es, Total d e
  | set e => SameElements d f f' e

theorem SameElements.nodes (h : SameElements d f f' e) : SameNodes d f f' e := by
  obtain ⟨ns, -, h⟩ := h
  exact ⟨ns, h⟩

/-- A step whose predicates have values keeps, from each node that it starts from, elements that lie
along its axis, whatever the other nodes are. -/
theorem exists_kept (tag : Text) (ha : a ≠ .attributes) (hes : ∀ e ∈ es, Total d e) :
    ∃ kept : Node → List Node,
      (∀ n, ∀ m ∈ kept n, m ∈ n.along d a ∧ ∃ p, m = .tree p ∧ d.isElement p = true) ∧
      ∀ {f : Focus} {start : Expr} {ns : List Node}, eval d f start = some (.nodes ns) →
        eval d f (.step start a (Pattern.testOf tag) es) =
          some (.nodes (Node.ordered d (ns.flatMap kept))) := by
  have hpass := exists_element_of_passes (d := d) tag ha
  choose kept hkept hsub using fun n => keepAll_of_total hes (hpass n)
  refine ⟨kept, fun n m hm => ?_, fun {f start ns} h => ?_⟩
  · have hm := (hsub n).subset hm
    exact ⟨(List.mem_filter.1 hm).1, hpass n m hm⟩
  · have hgather := gather_eq fun n (_ : n ∈ ns) => hkept n
    rw [eval, h]
    simp only [Option.bind_some, Value.nodes?, isBound_testOf, if_true, hgather, Option.map_some]

/-- A step whose predicates have values comes to elements. -/
theorem sameElements_step {start : Expr} {tag : Text} (hs : SameNodes d f f' start)
    (ha : a ≠ .attributes) (hes : ∀ e ∈ es, Total d e) :
    SameElements d f f' (.step start a (Pattern.testOf tag) es) := by
  obtain ⟨ns, hf, hf'⟩ := hs
  obtain ⟨kept, hkept, hstep⟩ := exists_kept tag ha hes
  refine ⟨_, fun m hm => ?_, hstep hf, hstep hf'⟩
  obtain ⟨n, -, hm⟩ := List.mem_flatMap.1 (Node.mem_ordered_iff.1 hm).2
  exact (hkept n m hm).2

/-- A settled stretch comes to elements. -/
theorem Stretch.Settled.elements : ∀ {p : Stretch}, p.Settled d f f' → SameElements d f f' p.expr
  | .step _ _ _ _, ⟨hs, ha, ⟨_, rfl⟩, hes⟩ => sameElements_step hs ha hes
  | .set _, h => h

/-- A set that is filtered by a predicate with values is a set of elements. -/
theorem sameElements_filter {set : Expr} (hset : SameElements d f f' set) (he : Total d e) :
    SameElements d f f' (.filter set e) := by
  obtain ⟨ns, hns, hf, hf'⟩ := hset
  obtain ⟨kept, hkept, hsub⟩ := keep_of_total he hns ns.length 1
  have heval {f : Focus} (h : eval d f set = some (.nodes ns)) :
      eval d f (.filter set e) = some (.nodes kept) := by
    rw [eval, h]
    simp only [Option.bind_some, Value.nodes?, hkept, Option.map_some]
  exact ⟨kept, fun n hn => hns n (hsub.subset hn), heval hf, heval hf'⟩

/-- A settled stretch stays so with one more predicate. -/
theorem Stretch.Settled.given (he : Total d e) :
    ∀ {p : Stretch}, p.Settled d f f' → (p.given e).Settled d f f'
  | .step _ _ _ _, ⟨hs, ha, htest, hes⟩ => by
    refine ⟨hs, ha, htest, fun e' he' => ?_⟩
    rcases List.mem_append.1 he' with he' | he'
    · exact hes e' he'
    · obtain rfl := List.mem_singleton.1 he'
      exact he
  | .set _, h => sameElements_filter h he

theorem sameNodes_descend (h : SameNodes d f f' e) : SameNodes d f f' (descend e) := by
  obtain ⟨ns, hf, hf'⟩ := h
  exact ⟨_, eval_descend hf, eval_descend hf'⟩

/-- What comes to the same elements for all positions of an element is true of it or not. -/
theorem steady_of_sameElements (h : ∀ p position size,
    SameElements d ⟨.tree p, position, size⟩ ⟨.tree p, 0, 0⟩ e) : Steady d e := by
  intro p _ position size
  obtain ⟨ns, -, hf, hf'⟩ := h p position size
  refine ⟨_, hf, fun _ => nofun, ?_⟩
  rw [truthAt, hf']
  rfl

end

end XPath.Expr

/-! ## Conditions

A condition is steady unless it asks for a position; it has a value in any case. The chains in the
arguments of a condition are evaluated from the context node, so that the position has no part in
them, even if a condition further inside asks for one: that one counts in its own row. The lemmas
are mutual along the pattern, with steadiness for what stands in an argument and settledness for
what is on the way. -/

section

variable {d : Document}

/-- Each pseudo-class without an argument has a value for every element. -/
theorem StaticPseudo.total (hd : d.IsTree) (s : StaticPseudo) : Total d s.expr := by
  cases h : s.isPositional with
  | false => exact (steady_of_truth (StaticPseudo.truth hd h)).total
  | true =>
    intro p _ position size
    cases s with
    | first => exact ⟨_, rfl⟩
    | last => exact ⟨_, rfl⟩
    | odd => exact ⟨_, rfl⟩
    | even => exact ⟨_, rfl⟩
    | disabled | firstChild | lastChild | onlyChild | empty | notEmpty | parent | header | root =>
      cases h

/-- A test asks for nothing but the element. -/
theorem AttributeTest.steady (hd : d.IsTree) (t : AttributeTest) : Steady d t.expr := by
  obtain ⟨name, comparison⟩ := t
  -- A word may have white space in it, so that it is not looked for among the words here but in
  -- the text that the expression makes.
  by_cases hword : ∃ w, comparison = some (.word, w) ∧ w ≠ []
  · obtain ⟨w, rfl, hw⟩ := hword
    have hempty : (AttributeOperator.word.failsOnEmpty && w.isEmpty) = false := by
      rw [List.isEmpty_eq_false_iff.2 hw]
      rfl
    refine steady_of_truth (truth_of_boolean (T := fun p => Text.holds
      (' ' :: Function.normalizeSpace ((d.value? name p).getD []) ++ [' ']) (' ' :: w ++ [' ']))
      fun p hp position size => ?_)
    obtain ⟨v, hv, hlook⟩ := eval_lookup hd hp name position size
    simp only [AttributeTest.expr, hempty, Bool.false_eq_true, if_false]
    rw [eval_word hv, hlook.toText]
  · refine steady_of_truth (AttributeTest.truth hd fun w hw c hc => ?_)
    exact absurd ⟨w, hw, List.ne_nil_of_mem hc⟩ hword

theorem sameNodes_here (d : Document) (p : Path) (position size : Nat) :
    SameNodes d ⟨.tree p, position, size⟩ ⟨.tree p, 0, 0⟩ .here := ⟨_, rfl, rfl⟩

theorem steady_anyOf {es : List Expr} (h : ∀ e ∈ es, Steady d e) : Steady d (anyOf es) := by
  have htruth : List.Forall₂ (Truth d) es (es.map (truthAt d)) := by
    rw [List.forall₂_map_right_iff, List.forall₂_same]
    exact h
  exact steady_of_truth (truth_anyOf htruth)

theorem filter_anyName (a : Axis) (ha : a ≠ .attributes) (l : List Path) :
    (l.map Node.tree).filter (NodeTest.anyName.passes d a) = (l.filter d.isElement).map .tree := by
  have hpass (n : Node) := passes_testOf (d := d) [] ha n
  rw [List.filter_map]
  refine congrArg (List.map Node.tree) (List.filter_congr fun q _ => (hpass (.tree q)).trans ?_)
  simp [Node.onTree, Document.hasTag]

/-- Of the elements in front, the nearest one is taken and then tested. -/
theorem keepAll_nearest {e : Expr} (h : Steady d e) {l : List Path}
    (hl : ∀ q ∈ l, d.isElement q = true) : keepAll d [.number (.whole 1), e] (l.map .tree) =
      some (((l.take 1).filter (truthAt d e)).map .tree) := by
  have hns : ∀ n ∈ (l.map Node.tree).take 1, ∃ q, n = .tree q ∧ d.isElement q = true := by
    intro n hn
    obtain ⟨q, hq, rfl⟩ := List.mem_map.1 (List.mem_of_mem_take hn)
    exact ⟨q, rfl, hl q hq⟩
  have hfilter : ((l.map Node.tree).take 1).filter (Node.onTree (truthAt d e)) =
      ((l.take 1).filter (truthAt d e)).map .tree := by
    rw [← List.map_take, List.filter_map]
    rfl
  rw [keepAll, keep_first]
  simp only
  rw [keepAll, keep_of_truth h hns, hfilter]
  simp only
  rw [keepAll]

theorem isEmpty_ordered {l : List Path} (hl : ∀ q ∈ l, d.isElement q = true) :
    (Node.ordered d (l.map .tree)).isEmpty = l.isEmpty := by
  cases l with
  | nil =>
    rw [List.isEmpty_nil, List.isEmpty_iff, List.eq_nil_iff_forall_not_mem]
    exact fun n hn => nomatch (Node.mem_ordered_iff.1 hn).2
  | cons q r =>
    rw [List.isEmpty_cons, List.isEmpty_eq_false_iff_exists_mem]
    have hq := Document.isSome_of_isElement (hl q (List.mem_cons_self ..))
    exact ⟨.tree q, Node.mem_ordered_iff.2 ⟨Node.tree_mem_all.2 (.inr hq), List.mem_cons_self ..⟩⟩

/-- What is asked of the nearest element in front. -/
theorem truth_nearest {e : Expr} (h : Steady d e) :
    Truth d (.step .here .precedingSibling .anyName [.number (.whole 1), e]) fun p =>
      (d.previousElement? p).any (truthAt d e) := by
  intro p hp position size
  have hfilter : ((Node.tree p).along d .precedingSibling).filter
      (NodeTest.anyName.passes d .precedingSibling) =
        ((d.earlierSiblings p).filter d.isElement).map .tree :=
    filter_anyName .precedingSibling (by decide) _
  have hprevious : d.previousElement? p = ((d.earlierSiblings p).filter d.isElement).head? :=
    (List.head?_filter ..).symm
  have helements : ∀ q ∈ (d.earlierSiblings p).filter d.isElement, d.isElement q = true :=
    fun q hq => (List.mem_filter.1 hq).2
  simp only [hprevious]
  -- From here on only the list of the elements in front matters, the nearest one first.
  generalize (d.earlierSiblings p).filter d.isElement = l at *
  have heval : eval d ⟨.tree p, position, size⟩
      (.step .here .precedingSibling .anyName [.number (.whole 1), e]) = some (.nodes
        (Node.ordered d (((l.take 1).filter (truthAt d e)).map .tree))) := by
    rw [eval, eval]
    simp only [Option.bind_some, Value.nodes?, NodeTest.isBound, if_true, gather, hfilter,
      keepAll_nearest h helements, Option.map_some, List.append_nil]
  refine ⟨_, heval, fun _ => by rintro ⟨⟩, ?_⟩
  rw [Value.toBool, isEmpty_ordered fun q hq =>
    helements q (List.mem_of_mem_take (List.mem_filter.1 hq).1)]
  cases l with
  | nil => rfl
  | cons q r =>
    cases ht : truthAt d e q <;> simp [ht]

namespace Pattern

def Condition.isPositional : Condition → Bool
  | .static s => s.isPositional
  | _ => false

theorem Condition.total_of (hd : d.IsTree) {c : Condition}
    (h : c.isPositional = false → Steady d c.expr) : Total d c.expr := by
  cases c with
  | static s => exact s.total hd
  | contains | not | has => exact (h rfl).total

mutual

/-- A condition that asks for no position is true of an element or not. -/
theorem Condition.steady (hd : d.IsTree) :
    ∀ c : Condition, c.isPositional = false → Steady d c.expr
  | .static s, h => steady_of_truth (StaticPseudo.truth hd h)
  | .contains t, _ => steady_of_truth (truth_holdsText t)
  | .not cs, _ => steady_of_truth (truth_not (steady_anyOf (steady_selfExprs hd cs)))
  | .has rs, _ => steady_anyOf (steady_relativeExprs hd rs)

theorem steady_selfExprs (hd : d.IsTree) : ∀ cs : List Chain, ∀ e ∈ selfExprs cs, Steady d e
  | [], _, h => nomatch h
  | c :: r, e, h => by
    rcases List.mem_cons.1 h with rfl | h
    · refine steady_of_sameElements fun p position size => ?_
      exact (c.settled hd (a := .self) (sameNodes_here d p position size) nofun).elements
    · exact steady_selfExprs hd r e h

theorem steady_relativeExprs (hd : d.IsTree) :
    ∀ rs : List Relative, ∀ e ∈ relativeExprs rs, Steady d e
  | [], _, h => nomatch h
  | .mk direct c :: r, e, h => by
    rcases List.mem_cons.1 h with rfl | h
    · refine steady_of_sameElements fun p position size => ?_
      exact (c.settled hd (sameNodes_here d p position size) (by cases direct <;> nofun)).elements
    · exact steady_relativeExprs hd r e h

theorem settled_givenAll (hd : d.IsTree) : ∀ (cs : List Condition) {f f' : Focus}
    {p : Stretch}, p.Settled d f f' → (givenAll p cs).Settled d f f'
  | [], _, _, _, h => h
  | c :: r, f, f', p, h => by
    have hinner : (if c.isResultScoped then Stretch.set p.expr else p).Settled d f f' := by
      split
      · exact h.elements
      · exact h
    exact settled_givenAll hd r (hinner.given (Condition.total_of hd (c.steady hd)))

theorem Element.settled (hd : d.IsTree) : ∀ (e : Element) {f f' : Focus} {start : Expr} {a : Axis}
    {es : List Expr}, SameNodes d f f' start → a ≠ .attributes → (∀ e ∈ es, Total d e) →
    (e.stretch start a es).Settled d f f'
  | .mk tag tests conditions, _, _, _, _, es, hs, ha, hes => by
    have htotal : ∀ e ∈ es ++ tests.map AttributeTest.expr, Total d e := by
      intro e he
      rcases List.mem_append.1 he with he | he
      · exact hes e he
      · obtain ⟨t, -, rfl⟩ := List.mem_map.1 he
        exact (t.steady hd).total
    exact settled_givenAll hd conditions ⟨hs, ha, ⟨tag, rfl⟩, htotal⟩

theorem Element.steady_self (hd : d.IsTree) (e : Element) :
    Steady d (e.stretch .here .self []).expr := by
  refine steady_of_sameElements fun p position size => ?_
  have h : (e.stretch .here .self []).Settled d ⟨.tree p, position, size⟩ ⟨.tree p, 0, 0⟩ :=
    e.settled hd (sameNodes_here d p position size) nofun nofun
  exact h.elements

/-- The steps of a chain come to elements. -/
theorem Chain.settled (hd : d.IsTree) : ∀ (c : Chain) {f f' : Focus} {start : Expr} {a : Axis},
    SameNodes d f f' start → a ≠ .attributes → (c.stretch start a).Settled d f f'
  | .start o e, _, _, _, _, hs, ha => e.settled hd hs ha nofun
  | .link b o e, f, f', start, a, hs, ha => by
    have hb := (b.settled hd hs ha).elements.nodes
    cases o with
    | none => exact e.settled hd (sameNodes_descend hb) nofun nofun
    | some o =>
      cases o with
      | child => exact e.settled hd hb nofun nofun
      | sibling => exact e.settled hd hb nofun nofun
      | adjacent =>
        rw [Chain.stretch_adjacent]
        split
        · have hone : ∀ e ∈ [Expr.number (.whole 1)], Total d e := by
            intro e he
            obtain rfl := List.mem_singleton.1 he
            exact fun _ _ _ _ => ⟨_, rfl⟩
          have hnext : SameElements d f f' (.step (b.stretch start a).expr .followingSibling
              (testOf []) [.number (.whole 1)]) := sameElements_step hb nofun hone
          exact e.settled hd hnext.nodes nofun nofun
        · refine e.settled hd hb nofun fun e he => ?_
          obtain rfl := List.mem_singleton.1 he
          exact (steady_of_truth (truth_nearest (b.steady_last hd))).total

/-- What the last element must be is a property of the element. -/
theorem Chain.steady_last (hd : d.IsTree) : ∀ c : Chain, Steady d c.lastStretch.expr
  | .start _ e => e.steady_self hd
  | .link _ _ e => e.steady_self hd

end

/-- So does the path of a chain from the context node. -/
theorem Chain.sameElements_anchoredExpr (hd : d.IsTree) (c : Chain)
    (hhere : SameNodes d f f' .here) : SameElements d f f' c.anchoredExpr := by
  rw [anchoredExpr]
  split
  · exact (c.settled hd (a := .child) (sameNodes_descend hhere) nofun).elements
  · exact (c.settled hd (a := .child) hhere nofun).elements
  · exact (c.settled hd (a := .followingSibling) hhere nofun).elements

end Pattern

end

end TreeQuery
