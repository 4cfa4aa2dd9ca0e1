import TreeQuery.Proofs.NodeSet.Below
import TreeQuery.Proofs.NodeSet.Run

/-!
# There and back

To go to the next element and back again comes to the elements that have a next one, and to go down
to the children and up again comes to those that have children. Comments, instructions and texts
between the elements are passed over in both directions, so that they make no difference. Siblings
are siblings of each other, and are the other children of the parent.

Main statement: `NodeSet.traversals_inverse`.
-/

namespace TreeQuery

/-! ## Lists

Going and coming back is a partial inverse or, for children, an inverse that is taken several times.
What is left of the nodes is told on lists first, without documents. -/

section

variable {α : Type} {l : List α}

/-- Where a step can be taken back, to take it and to take it back leaves what the step is possible
for. -/
theorem List.filterMap_and_back {β : Type} {f : α → Option β} {g : β → Option α}
    (h : ∀ a ∈ l, ∀ b, f a = some b → g b = some a) :
    (l.filterMap f).filterMap g = l.filter fun a => (f a).isSome := by
  induction l with
  | nil => rfl
  | cons a r ih =>
    rw [List.forall_mem_cons] at h
    cases hf : f a with
    | none => rw [List.filterMap_cons_none hf, List.filter_cons_of_neg (by simp [hf]), ih h.2]
    | some b =>
      rw [List.filterMap_cons_some hf, List.filterMap_cons_some (h.1 b hf),
        List.filter_cons_of_pos (by simp [hf]), ih h.2]

variable {f : α → List α}

/-- To keep some of what is listed for each member is to list it for some of the members, if nothing
but the member itself is listed. -/
theorem List.filter_flatMap_self (h : ∀ a ∈ l, ∀ b ∈ f a, b = a) (p : α → Bool) :
    (l.flatMap f).filter p = (l.filter p).flatMap f := by
  induction l with
  | nil => rfl
  | cons a r ih =>
    rw [List.forall_mem_cons] at h
    rw [List.flatMap_cons, List.filter_append, ih h.2]
    cases hp : p a with
    | true =>
      have hall : (f a).filter p = f a :=
        List.filter_eq_self.2 fun b hb => by rw [h.1 b hb, hp]
      rw [hall, List.filter_cons_of_pos hp, List.flatMap_cons]
    | false =>
      have hnone : (f a).filter p = [] :=
        List.filter_eq_nil_iff.2 fun b hb => by simp [h.1 b hb, hp]
      rw [hnone, List.filter_cons_of_neg (by simp [hp]), List.nil_append]

/-- Members that are listed any number of times, relieved of repetitions, are those that are listed
at all. -/
theorem List.eraseDups_flatMap_self [BEq α] [LawfulBEq α] (h : ∀ a ∈ l, ∀ b ∈ f a, b = a) :
    (l.flatMap f).eraseDups = (l.filter fun a => !(f a).isEmpty).eraseDups := by
  -- The induction is on the length, as what is left behind the first member is filtered.
  induction hn : l.length using Nat.strong_induction_on generalizing l with
  | _ n ih =>
    subst hn
    cases l with
    | nil => rfl
    | cons a r =>
      rw [List.forall_mem_cons] at h
      cases hf : f a with
      | nil =>
        rw [List.flatMap_cons, hf, List.nil_append, List.filter_cons_of_neg (by simp [hf])]
        exact ih r.length (Nat.lt_succ_self _) h.2 rfl
      | cons b t =>
        have hself : ∀ c ∈ b :: t, c = a := hf ▸ h.1
        rw [List.forall_mem_cons] at hself
        have hnone : t.filter (fun c => !c == a) = [] :=
          List.filter_eq_nil_iff.2 fun c hc => by simp [hself.2 c hc]
        have hother : ∀ c ∈ r.filter (fun c => !c == a), ∀ b ∈ f c, b = c :=
          fun c hc => h.2 c (List.mem_filter.1 hc).1
        -- Behind the first, no other that is the same is left on either side.
        rw [List.flatMap_cons, hf, hself.1, List.cons_append, List.eraseDups_cons, List.filter_append,
          hnone, List.nil_append, List.filter_flatMap_self h.2, List.filter_cons_of_pos (by simp [hf]),
          List.eraseDups_cons, List.filter_filter]
        rw [ih _ (Nat.lt_succ_of_le (List.length_filter_le ..)) hother rfl, List.filter_filter]
        simp only [Bool.and_comm]

end

/-! ## Steps and steps back

For two elements, each step is undone by another: next and previous, and child and parent. The
document itself is no element, so that the elements at the top have no parent to go to. -/

namespace Document

variable {d : Document} {m n p r : Path}

/-- The parent of an element, if that is an element too. -/
theorem elementParent?_eq_some_iff : elementParent? p = some r ↔ parent? p = some r ∧ r ≠ [] := by
  obtain rfl | ⟨s, i, rfl⟩ := eq_nil_or_concat p
  · exact ⟨nofun, nofun⟩
  · rw [elementParent?, List.dropLast_concat, parent?_concat]
    cases s with
    | nil =>
      refine ⟨nofun, ?_⟩
      rintro ⟨h, hne⟩
      cases h
      exact absurd rfl hne
    | cons j t =>
      refine ⟨fun h => ?_, And.left⟩
      cases h
      exact ⟨rfl, List.cons_ne_nil j t⟩

/-- The children of an element are the elements of which it is the parent. -/
theorem mem_elementChildren_iff (hr : r ≠ []) :
    p ∈ d.elementChildren r ↔ d.isElement p = true ∧ elementParent? p = some r := by
  rw [elementChildren, List.mem_filter, and_comm, elementParent?_eq_some_iff]
  refine and_congr_right fun hp => ?_
  rw [mem_children_iff_parent? (isSome_of_isElement hp)]
  exact (and_iff_left hr).symm

/-- Elements are siblings if they have the same parent. -/
theorem mem_elementSiblings_iff (hm : d.isElement m = true) : m ∈ d.elementSiblings n ↔
    ∃ r, elementParent? n = some r ∧ elementParent? m = some r ∧ m ≠ n := by
  rw [elementSiblings]
  cases hn : elementParent? n with
  | none =>
    refine ⟨nofun, ?_⟩
    rintro ⟨r, h, -⟩
    cases h
  | some r =>
    show m ∈ (d.elementChildren r).filter (· != n) ↔ _
    rw [List.mem_filter, mem_elementChildren_iff (elementParent?_eq_some_iff.1 hn).2, bne_iff_ne]
    constructor
    · rintro ⟨⟨-, hparent⟩, hne⟩
      exact ⟨r, rfl, hparent, hne⟩
    · rintro ⟨s, h, hparent, hne⟩
      cases h
      exact ⟨⟨hm, hparent⟩, hne⟩

theorem isEmpty_elementChildren (d : Document) (n : Path) :
    (d.elementChildren n).isEmpty = !(d.children n).any d.isElement := by
  rw [elementChildren, List.any_eq_not_all_not, Bool.not_not, Bool.eq_iff_iff, List.isEmpty_iff,
    List.filter_eq_nil_iff, List.all_eq_true]
  simp only [Bool.not_eq_true, Bool.not_eq_true']

theorem isSome_nextElement? (d : Document) (n : Path) :
    (d.nextElement? n).isSome = (d.laterSiblings n).any d.isElement := by
  rw [Bool.eq_iff_iff, nextElement?, List.find?_isSome, List.any_eq_true]

theorem isSome_previousElement? (d : Document) (n : Path) :
    (d.previousElement? n).isSome = (d.earlierSiblings n).any d.isElement := by
  rw [Bool.eq_iff_iff, previousElement?, List.find?_isSome, List.any_eq_true]

end Document

/-! ## Sets

The operations on sets list what the step gives for each node, and leave out repetitions only where
several nodes share what is listed. -/

namespace NodeSet

variable {q : NodeSet} {d : Document}

/-- In one document the steps are listed for each node. -/
theorem collect_of_document {f : Document → Path → List Path}
    (hq : ∀ n ∈ q.nodes, q.document = some d) : q.collect f = q.nodes.flatMap (f d) := by
  cases hn : q.nodes with
  | nil =>
    rw [collect]
    cases q.document with
    | none => rfl
    | some e => rw [hn]; rfl
  | cons n r =>
    rw [collect, hq n (by rw [hn]; exact List.mem_cons_self), ← hn]

/-- What is made of the nodes of a set one by one lies in the same document. -/
theorem document_of_mem_filterMap {f : Path → Option Path}
    (hq : ∀ n ∈ q.nodes, q.document = some d) : ∀ n ∈ q.nodes.filterMap f, q.document = some d := by
  intro n hn
  obtain ⟨p, hp, -⟩ := List.mem_filterMap.1 hn
  exact hq p hp

/-- The next elements of the nodes. -/
theorem nodes_nexts (hq : ∀ n ∈ q.nodes, q.document = some d) :
    q.nexts.nodes = q.nodes.filterMap d.nextElement? := by
  show q.collect _ = _
  rw [collect_of_document hq, List.filterMap_eq_flatMap_toList]

/-- The elements in front of the nodes. -/
theorem nodes_previous (hq : ∀ n ∈ q.nodes, q.document = some d) :
    q.previous.nodes = q.nodes.filterMap d.previousElement? := by
  show q.collect _ = _
  rw [collect_of_document hq, List.filterMap_eq_flatMap_toList]

/-- The next element of some is in front of which they are. -/
theorem nodes_previous_nexts (hq : ∀ n ∈ q.nodes, q.document = some d ∧ d.isElement n = true) :
    q.nexts.previous.nodes = q.nodes.filter fun n => (d.laterSiblings n).any d.isElement := by
  have hdocument : ∀ n ∈ q.nodes, q.document = some d := fun n hn => (hq n hn).1
  have hnexts := nodes_nexts hdocument
  have hmade : ∀ n ∈ q.nexts.nodes, q.nexts.document = some d := by
    rw [hnexts]
    exact document_of_mem_filterMap hdocument
  rw [nodes_previous hmade, hnexts, List.filterMap_and_back fun n hn s hs => ?_]
  · exact List.filter_congr fun n _ => d.isSome_nextElement? n
  · exact (Document.nextElement?_eq_some_iff (hq n hn).2 (List.find?_some hs)).1 hs

/-- The element in front of some is followed by them. -/
theorem nodes_nexts_previous (hq : ∀ n ∈ q.nodes, q.document = some d ∧ d.isElement n = true) :
    q.previous.nexts.nodes = q.nodes.filter fun n => (d.earlierSiblings n).any d.isElement := by
  have hdocument : ∀ n ∈ q.nodes, q.document = some d := fun n hn => (hq n hn).1
  have hprevious := nodes_previous hdocument
  have hmade : ∀ n ∈ q.previous.nodes, q.previous.document = some d := by
    rw [hprevious]
    exact document_of_mem_filterMap hdocument
  rw [nodes_nexts hmade, hprevious, List.filterMap_and_back fun n hn s hs => ?_]
  · exact List.filter_congr fun n _ => d.isSome_previousElement? n
  · exact (Document.nextElement?_eq_some_iff (List.find?_some hs) (hq n hn).2).2 hs

/-- Every child leads back to its parent, so that parents are named as often as they have children,
and are kept once. -/
theorem nodes_parents_children
    (hq : ∀ n ∈ q.nodes, q.document = some d ∧ d.isElement n = true) :
    q.children.parents.nodes =
      (q.nodes.filter fun n => (d.children n).any d.isElement).eraseDups := by
  have hchildren : q.children.nodes = q.nodes.flatMap d.elementChildren :=
    collect_of_document fun n hn => (hq n hn).1
  -- Each child of a node leads back to that node.
  have hback (n : Path) (hn : n ∈ q.nodes) :
      (d.elementChildren n).filterMap Document.elementParent? =
        (d.elementChildren n).map fun _ => n := by
    have hne : n ≠ [] := by
      rintro rfl
      cases (hq _ hn).2
    rw [← List.filterMap_eq_map]
    exact List.filterMap_congr fun p hp => ((Document.mem_elementChildren_iff hne).1 hp).2
  show (q.children.nodes.filterMap Document.elementParent?).eraseDups = _
  rw [hchildren, List.filterMap_flatMap, List.eraseDups_flatMap_self fun n hn r hr => ?_]
  · refine congrArg List.eraseDups (List.filter_congr fun n hn => ?_)
    rw [hback n hn, List.isEmpty_map, d.isEmpty_elementChildren, Bool.not_not]
  · rw [hback n hn] at hr
    obtain ⟨p, -, rfl⟩ := List.mem_map.1 hr
    rfl

/-- The siblings of an element are the children of its parent but for itself. -/
theorem nodes_siblings_ofNodes {n : Path} (hn : d.isElement n = true) (asXml : Option Bool) :
    (ofNodes d [n] asXml).siblings.nodes = d.elementSiblings n := by
  obtain ⟨-, hdocument, hnodes⟩ := ofNodes_of_isElement hn asXml
  have hnodup : (d.elementSiblings n).Nodup := by
    rw [Document.elementSiblings]
    split
    · exact .nil
    · exact (d.nodup_elementChildren _).filter _
  show ((ofNodes d [n] asXml).collect _).eraseDups = _
  rw [collect_of_document fun _ _ => hdocument, hnodes, List.flatMap_singleton,
    List.eraseDups_of_nodup hnodup]

/-- The children of the parent of an element. -/
theorem nodes_children_parents_ofNodes {n : Path} (hn : d.isElement n = true)
    (asXml : Option Bool) : (ofNodes d [n] asXml).parents.children.nodes =
      (Document.elementParent? n).toList.flatMap d.elementChildren := by
  obtain ⟨-, hdocument, hnodes⟩ := ofNodes_of_isElement hn asXml
  have hparents : (ofNodes d [n] asXml).parents.nodes = (Document.elementParent? n).toList := by
    show ((ofNodes d [n] asXml).nodes.filterMap _).eraseDups = _
    rw [hnodes]
    cases h : Document.elementParent? n with
    | none => rw [List.filterMap_cons_none h]; rfl
    | some r => rw [List.filterMap_cons_some h]; rfl
  have hmade : (ofNodes d [n] asXml).parents.document = some d := hdocument
  show (ofNodes d [n] asXml).parents.collect _ = _
  rw [collect_of_document fun _ _ => hmade, hparents]

/-! ## The laws -/

/-- To go on and back, or back and on, leaves the nodes of a set that have an element behind them,
or in front of them; to go down and up leaves those that have an element inside them, each once
where it comes first. Elements are siblings of each other; and the siblings of an element are the
children of its parent without the element itself. -/
theorem traversals_inverse (hq : ∀ n ∈ q.nodes, q.document = some d ∧ d.isElement n = true) :
    q.nexts.previous.nodes = q.nodes.filter (fun n => (d.laterSiblings n).any d.isElement) ∧
    q.previous.nexts.nodes = q.nodes.filter (fun n => (d.earlierSiblings n).any d.isElement) ∧
    q.children.parents.nodes =
      (q.nodes.filter fun n => (d.children n).any d.isElement).eraseDups ∧
    ∀ (n : Path) (asXml : Option Bool), d.isElement n = true →
      (∀ m, d.isElement m = true → (m ∈ (ofNodes d [n] asXml).siblings.nodes ↔
        n ∈ (ofNodes d [m] asXml).siblings.nodes)) ∧
      (ofNodes d [n] asXml).siblings.nodes =
        (ofNodes d [n] asXml).parents.children.nodes.filter (· != n) := by
  refine ⟨nodes_previous_nexts hq, nodes_nexts_previous hq, nodes_parents_children hq,
    fun n asXml hn => ⟨fun m hm => ?_, ?_⟩⟩
  · rw [nodes_siblings_ofNodes hn, nodes_siblings_ofNodes hm, Document.mem_elementSiblings_iff hm,
      Document.mem_elementSiblings_iff hn]
    constructor
    · rintro ⟨r, hn, hm, hne⟩
      exact ⟨r, hm, hn, hne.symm⟩
    · rintro ⟨r, hm, hn, hne⟩
      exact ⟨r, hn, hm, hne.symm⟩
  · rw [nodes_siblings_ofNodes hn, nodes_children_parents_ofNodes hn, Document.elementSiblings]
    cases Document.elementParent? n with
    | none => rfl
    | some r => rw [Option.toList_some, List.flatMap_singleton]

def inAndAround : NodeSet :=
  { document := some twoAroundComment, nodes := [[0, 2], [0], [0, 0], [0, 2]] }

/-- The comment between the two elements is passed over both ways. -/
theorem traversals_inverse_inAndAround :
    (∀ n ∈ inAndAround.nodes,
      inAndAround.document = some twoAroundComment ∧ twoAroundComment.isElement n = true) ∧
    inAndAround.nexts.previous.nodes = [[0, 0]] ∧
    inAndAround.previous.nexts.nodes = [[0, 2], [0, 2]] ∧
    inAndAround.children.parents.nodes = [[0]] ∧
    twoAroundComment.isElement [0, 0] = true ∧ twoAroundComment.isElement [0, 2] = true ∧
    ([0, 2] ∈ (ofNodes twoAroundComment [[0, 0]] none).siblings.nodes ↔
      [0, 0] ∈ (ofNodes twoAroundComment [[0, 2]] none).siblings.nodes) ∧
    (ofNodes twoAroundComment [[0, 0]] none).siblings.nodes = [[0, 2]] := by
  have hq : ∀ n ∈ inAndAround.nodes,
      inAndAround.document = some twoAroundComment ∧ twoAroundComment.isElement n = true := by
    decide
  have hfirst : twoAroundComment.isElement [0, 0] = true := by decide
  have hsecond : twoAroundComment.isElement [0, 2] = true := by decide
  obtain ⟨hnext, hprevious, hchildren, hall⟩ := traversals_inverse hq
  obtain ⟨hcomm, hsiblings⟩ := hall [0, 0] none hfirst
  refine ⟨hq, hnext.trans (by decide), hprevious.trans (by decide), hchildren.trans (by decide),
    hfirst, hsecond, hcomm _ hsecond, hsiblings.trans (by decide)⟩

end NodeSet

end TreeQuery
