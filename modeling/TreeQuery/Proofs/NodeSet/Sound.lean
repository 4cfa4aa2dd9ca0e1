import Mathlib.Data.List.Nodup
import TreeQuery.NodeSet.Traversal
import TreeQuery.Proofs.Matching.Finding
import TreeQuery.Proofs.XPath.Distinct

/-!
# Sets of distinct elements

The nodes of a set are distinct elements of its document. Each operation keeps to that for a reason
of its own: what is filtered is a part of the set, what is searched is put in order or relieved of
repetitions, and what is next to distinct elements, or inside them, is distinct. Parents are
elements because only elements contain anything.

Main statements: `NodeSet.IsSound` and one lemma for each operation, from `isMadeFrom_pick` to
`ensures_closest`.
-/

namespace TreeQuery

/-! ## What queries ensure

A query may fail, and it fails for reasons that have nothing to do with its nodes: a selector at
fault, an expression that cannot be evaluated. A property of what a query comes to is therefore
asked for only where it comes to something, and carried through the steps by one rule for `bind`. -/

/-- Whatever a query comes to has a property. -/
structure Query.Ensures {α : Type} (P : α → Prop) (a : Query α) : Prop where
  of_outcome : ∀ m v, a.outcome m = .ok v → P v

namespace Query

variable {α β : Type} {P : α → Prop} {Q : β → Prop}

theorem Ensures.pure {v : α} (h : P v) : Ensures P (pure v : Query α) where
  of_outcome m w hw := by
    cases hw
    exact h

/-- A property of the first step may be used for the second. -/
theorem Ensures.bind {a : Query α} {k : α → Query β} (h : Ensures P a)
    (hk : ∀ v, P v → Ensures Q (k v)) : Ensures Q (a >>= k) where
  of_outcome m w hw := by
    rw [outcome_bind] at hw
    cases ha : a.outcome m with
    | error e =>
      rw [ha] at hw
      cases hw
    | ok v =>
      rw [ha] at hw
      exact (hk v (h.of_outcome m v ha)).of_outcome _ w hw

theorem Ensures.trivial (a : Query α) : Ensures (fun _ => True) a := ⟨fun _ _ _ => True.intro⟩

theorem Ensures.mono {P' : α → Prop} {a : Query α} (h : Ensures P a) (hP : ∀ v, P v → P' v) :
    Ensures P' a :=
  ⟨fun m v hv => hP v (h.of_outcome m v hv)⟩

end Query

/-- Nothing is left twice. -/
theorem List.nodup_eraseDups {α : Type} [BEq α] [LawfulBEq α] (l : List α) :
    l.eraseDups.Nodup := by
  induction h : l.length using Nat.strong_induction_on generalizing l with
  | _ n ih =>
    subst h
    cases l with
    | nil => exact .nil
    | cons a r =>
      rw [List.eraseDups_cons, List.nodup_cons]
      refine ⟨?_, ih _ ?_ _ rfl⟩
      · rw [List.mem_eraseDups, List.mem_filter]
        simp
      · rw [List.length_cons]
        exact Nat.lt_succ_of_le (List.length_filter_le ..)

/-- Where nothing occurs twice nothing goes. -/
theorem List.eraseDups_of_nodup {α : Type} [BEq α] [LawfulBEq α] {l : List α} (h : l.Nodup) :
    l.eraseDups = l := by
  induction l with
  | nil => rfl
  | cons a r ih =>
    rw [List.nodup_cons] at h
    have hother : r.filter (fun b => !b == a) = r := by
      rw [List.filter_eq_self]
      intro b hb
      have hne : b ≠ a := fun he => h.1 (he ▸ hb)
      simpa using hne
    rw [List.eraseDups_cons, hother, ih h.2]

/-- The children of a node are distinct. -/
theorem Document.nodup_elementChildren (d : Document) (p : Path) :
    (d.elementChildren p).Nodup := by
  refine List.Nodup.filter _ (List.nodup_range.map fun i j hij => ?_)
  simpa using hij

namespace NodeSet

/-! ## Soundness

`IsSound` is what an operation needs of the set that it is called on, `IsMadeFrom` what it gives.
The second implies the first, so that operations can be called one after another. -/

/-- Some nodes are elements of the document of a set. -/
def HoldsElements (q : NodeSet) (ps : List Path) : Prop :=
  ∀ p ∈ ps, ∃ d, q.document = some d ∧ d.isElement p = true

/-- The nodes of a set are distinct elements of its document, in which only elements contain
anything. -/
structure IsSound (q : NodeSet) : Prop where
  distinct : q.nodes.Nodup
  elements : q.HoldsElements q.nodes
  leaves : ∀ d, q.document = some d → ∀ {p : Path} {i : Nat},
    (d.label? (p ++ [i])).isSome = true → p = [] ∨ d.isElement p = true

/-- A set of distinct elements of the same document as another, which are written in the same way;
it does not stand for the whole document. -/
structure IsMadeFrom (r q : NodeSet) : Prop where
  distinct : r.nodes.Nodup
  elements : r.HoldsElements r.nodes
  document : r.document = q.document
  asXml : r.asXml = q.asXml
  isWhole : r.isWhole = false

theorem IsMadeFrom.isSound {q r : NodeSet} (h : r.IsMadeFrom q) (hq : q.IsSound) : r.IsSound :=
  ⟨h.distinct, h.elements, by rw [h.document]; exact hq.leaves⟩

/-- What is made from a set that has been made from another is made from that. -/
theorem IsMadeFrom.trans {q r s : NodeSet} (h : s.IsMadeFrom r) (h' : r.IsMadeFrom q) :
    s.IsMadeFrom q :=
  ⟨h.distinct, h.elements, h.document.trans h'.document, h.asXml.trans h'.asXml, h.isWhole⟩

variable {q : NodeSet} {d : Document}

/-- Distinct elements of the document make a set. -/
theorem isMadeFrom_holding {ns : List Path} (hn : ns.Nodup) (he : q.HoldsElements ns) :
    (q.holding ns).IsMadeFrom q :=
  ⟨hn, he, rfl, rfl, rfl⟩

/-- A part of a sound set is made from it. -/
theorem IsSound.part {ns : List Path} (hq : q.IsSound) (h : ns.Sublist q.nodes) :
    (q.holding ns).IsMadeFrom q :=
  isMadeFrom_holding (h.nodup hq.distinct) fun p hp => hq.elements p (h.subset hp)

/-! ## Positions

What is picked, sliced or filtered is a part of the set, in its order. -/

theorem isMadeFrom_pick (hq : q.IsSound) (i : Int) : (q.pick i).IsMadeFrom q := by
  have hmem {p : Path} (h : q.at? i = some p) : p ∈ q.nodes := by
    unfold at? at h
    split at h
    · exact List.mem_of_getElem? h
    · split at h
      · exact List.mem_of_getElem? h
      · cases h
  unfold pick
  cases h : q.at? i with
  | none => exact isMadeFrom_holding .nil (by simp [HoldsElements])
  | some p => exact hq.part (List.singleton_sublist.2 (hmem h))

theorem isMadeFrom_slice (hq : q.IsSound) (start : Int) (stop : Option Int) :
    (q.slice start stop).IsMadeFrom q :=
  hq.part ((List.drop_sublist _ _).trans (List.take_sublist _ _))

theorem isMadeFrom_filterBy (hq : q.IsSound) (p : Path → Nat → Bool) :
    (q.filterBy p).IsMadeFrom q := by
  apply hq.part
  have h : (q.nodes.zipIdx.filter fun x => p x.1 x.2).Sublist q.nodes.zipIdx := List.filter_sublist
  have hmap := h.map (·.1)
  rwa [List.zipIdx_map_fst] at hmap

theorem isMadeFrom_excludeBy (hq : q.IsSound) (p : Path → Nat → Bool) :
    (q.excludeBy p).IsMadeFrom q :=
  isMadeFrom_filterBy hq fun n i => !p n i

/-! ## Searching

What an expression selects is sorted by the evaluation, which removes repetitions. What is selected
below several nodes is put together and relieved of repetitions once more, since one node may lie
below two others. -/

/-- What an expression selects are distinct elements. -/
theorem ensures_select (q : NodeSet) (x : Text) (context : Option Path) :
    Query.Ensures (fun ps => ps.Nodup ∧ q.HoldsElements ps) (q.select x context) := by
  cases hd : q.document with
  | none =>
    rw [select, hd]
    exact .pure ⟨.nil, by simp [HoldsElements]⟩
  | some d =>
    refine ⟨fun m ps h => ?_⟩
    rw [outcome_select hd] at h
    exact ⟨Document.nodup_of_elementsFor h,
      fun p hp => ⟨d, hd, isElement_of_elementsFor h p hp⟩⟩

/-- What matches a selector in the whole document are distinct elements. -/
theorem ensures_matching (q : NodeSet) (s : Text) :
    Query.Ensures (fun ps => ps.Nodup ∧ q.HoldsElements ps) (q.matching s) :=
  (Query.Ensures.trivial _).bind fun x _ => ensures_select q x none

/-- What is selected below nodes is relieved of repetitions. -/
theorem ensures_selectBelow (q : NodeSet) (x : Text) (ps : List Path) :
    Query.Ensures (fun ps => ps.Nodup ∧ q.HoldsElements ps) (q.selectBelow x ps) := by
  induction ps with
  | nil => exact .pure ⟨.nil, by simp [HoldsElements]⟩
  | cons p r ih =>
    apply (ensures_select q x (some p)).bind
    intro found hfound
    apply ih.bind
    intro rest hrest
    refine .pure ⟨List.nodup_eraseDups _, fun s hs => ?_⟩
    rcases List.mem_append.1 (List.mem_eraseDups.1 hs) with hs | hs
    · exact hfound.2 s hs
    · exact hrest.2 s hs

/-- Putting nodes in order repeats none. -/
theorem nodup_inOrder {ps : List Path} (h : ps.Nodup) : (q.inOrder ps).Nodup := by
  unfold inOrder
  cases q.document with
  | none => exact h
  | some d => exact d.nodup_elements.filter _

/-- It adds none either. -/
theorem mem_of_mem_inOrder {ps : List Path} {p : Path} (h : p ∈ q.inOrder ps) : p ∈ ps := by
  unfold inOrder at h
  cases hd : q.document with
  | none =>
    rw [hd] at h
    exact h
  | some d =>
    rw [hd] at h
    simpa using (List.mem_filter.1 h).2

theorem ensures_find (q : NodeSet) (s : Text) : Query.Ensures (·.IsMadeFrom q) (q.find s) := by
  apply (Query.Ensures.trivial _).bind
  intro x _
  split
  · apply (ensures_select q x none).bind
    intro ps hps
    exact .pure (isMadeFrom_holding hps.1 hps.2)
  · apply (ensures_selectBelow q _ q.nodes).bind
    intro ps hps
    split
    · exact .pure (isMadeFrom_holding (nodup_inOrder hps.1)
        fun p hp => hps.2 p (mem_of_mem_inOrder hp))
    · exact .pure (isMadeFrom_holding hps.1 hps.2)

/-! ## Filtering

To filter by a selector is to keep the nodes that are among those the selector finds, and to exclude
is to keep the others. Both are parts of the set whatever the selector finds. -/

theorem ensures_filter (hq : q.IsSound) (s : Text) :
    Query.Ensures (·.IsMadeFrom q) (q.filter s) := by
  unfold filter
  split
  · exact .pure (hq.part (List.nil_sublist _))
  · exact (Query.Ensures.trivial _).bind fun _ _ => .pure (hq.part List.filter_sublist)

theorem ensures_exclude (hq : q.IsSound) (s : Text) :
    Query.Ensures (·.IsMadeFrom q) (q.exclude s) := by
  unfold exclude
  split
  · exact .pure (hq.part (List.nil_sublist _))
  · exact (Query.Ensures.trivial _).bind fun _ _ => .pure (hq.part List.filter_sublist)

/-- A set that is narrowed has been made from the same set. -/
theorem ensures_narrow {r : NodeSet} (h : r.IsMadeFrom q) (hq : q.IsSound) (s : Option Text) :
    Query.Ensures (·.IsMadeFrom q) (r.narrow s) := by
  unfold narrow
  split
  · exact .pure h
  · exact .pure h
  · exact (ensures_filter (h.isSound hq) _).mono fun v hv => hv.trans h

theorem ensures_has (hq : q.IsSound) (s : Text) : Query.Ensures (·.IsMadeFrom q) (q.has s) := by
  have hpart (ps : List Path) : Query.Ensures (·.Sublist ps) (q.havingAmong s ps) := by
    induction ps with
    | nil => exact .pure (List.Sublist.refl _)
    | cons p r ih =>
      apply (Query.Ensures.trivial _).bind
      intro found _
      apply ih.bind
      intro rest hrest
      split
      · exact .pure (hrest.cons_cons p)
      · exact .pure (hrest.cons p)
  exact (hpart q.nodes).bind fun ps hps => .pure (hq.part hps)

/-- The nearest elements that match are among those that match. -/
theorem ensures_closest (hq : q.IsSound) (s : Text) :
    Query.Ensures (·.IsMadeFrom q) (q.closest s) := by
  unfold closest
  split
  · exact .pure (hq.part (List.nil_sublist _))
  · apply (ensures_matching q s).bind
    intro found hfound
    refine .pure (isMadeFrom_holding (List.nodup_eraseDups _) fun p hp => ?_)
    obtain ⟨r, -, hr⟩ := List.mem_filterMap.1 (List.mem_eraseDups.1 hp)
    exact hfound.2 p (List.contains_iff_mem.1 (List.find?_some hr))

/-! ## Going through the tree

Each of these operations lists something for each node. Children and neighbours of distinct elements
are distinct, as a child has one parent and an element one neighbour on each side; siblings and
parents are shared, so that repetitions are taken out. -/

/-- What is listed for each node of a sound set makes a sound set, provided that elements are
listed, none twice, and none for two nodes. -/
theorem isMadeFrom_collect (hq : q.IsSound) {f : Document → Path → List Path}
    (helement : ∀ d p, ∀ s ∈ f d p, d.isElement s = true) (hnodup : ∀ d p, (f d p).Nodup)
    (hinjective : ∀ d p r s, d.isElement p = true → d.isElement r = true →
      s ∈ f d p → s ∈ f d r → p = r) : (q.holding (q.collect f)).IsMadeFrom q := by
  unfold collect
  cases hd : q.document with
  | none => exact isMadeFrom_holding .nil (by simp [HoldsElements])
  | some d =>
    have hnode {p : Path} (hp : p ∈ q.nodes) : d.isElement p = true := by
      obtain ⟨e, he, hp⟩ := hq.elements p hp
      obtain rfl : d = e := Option.some.inj (hd.symm.trans he)
      exact hp
    refine isMadeFrom_holding (List.nodup_flatMap.2 ⟨fun p _ => hnodup d p, ?_⟩) fun s hs => ?_
    · refine hq.distinct.imp_of_mem fun {p r} hp hr hne s hs hs' => ?_
      exact hne (hinjective d p r s (hnode hp) (hnode hr) hs hs')
    · obtain ⟨p, -, hs⟩ := List.mem_flatMap.1 hs
      exact ⟨d, hd, helement d p s hs⟩

theorem isMadeFrom_children (hq : q.IsSound) : q.children.IsMadeFrom q := by
  apply isMadeFrom_collect hq
  · intro d p s hs
    exact (List.mem_filter.1 hs).2
  · exact Document.nodup_elementChildren
  · intro d p r s _ _ hs hs'
    have hp := Document.parent?_of_mem_children (List.mem_filter.1 hs).1
    have hr := Document.parent?_of_mem_children (List.mem_filter.1 hs').1
    exact Option.some.inj (hp.symm.trans hr)

theorem isMadeFrom_nexts (hq : q.IsSound) : q.nexts.IsMadeFrom q := by
  apply isMadeFrom_collect hq
  · intro d p s hs
    exact List.find?_some (Option.mem_toList.1 hs)
  · intro d p
    cases d.nextElement? p <;> simp
  · intro d p r s hp hr hs hs'
    have hnext := Option.mem_toList.1 hs
    have hs : d.isElement s = true := List.find?_some hnext
    have hprevious := (Document.nextElement?_eq_some_iff hp hs).1 hnext
    have hprevious' := (Document.nextElement?_eq_some_iff hr hs).1 (Option.mem_toList.1 hs')
    exact Option.some.inj (hprevious.symm.trans hprevious')

theorem isMadeFrom_previous (hq : q.IsSound) : q.previous.IsMadeFrom q := by
  apply isMadeFrom_collect hq
  · intro d p s hs
    exact List.find?_some (Option.mem_toList.1 hs)
  · intro d p
    cases d.previousElement? p <;> simp
  · intro d p r s hp hr hs hs'
    have hprevious := Option.mem_toList.1 hs
    have hs : d.isElement s = true := List.find?_some hprevious
    have hnext := (Document.nextElement?_eq_some_iff hs hp).2 hprevious
    have hnext' := (Document.nextElement?_eq_some_iff hs hr).2 (Option.mem_toList.1 hs')
    exact Option.some.inj (hnext.symm.trans hnext')

theorem isMadeFrom_siblings (q : NodeSet) : q.siblings.IsMadeFrom q := by
  refine isMadeFrom_holding (List.nodup_eraseDups _) fun s hs => ?_
  have hs := List.mem_eraseDups.1 hs
  unfold collect at hs
  split at hs
  · cases hs
  · next d hd =>
    obtain ⟨p, -, hs⟩ := List.mem_flatMap.1 hs
    unfold Document.elementSiblings at hs
    split at hs
    · cases hs
    · have hchild := (List.mem_filter.1 hs).1
      exact ⟨d, hd, (List.mem_filter.1 hchild).2⟩

/-- The parent of an element contains something, and is therefore an element. -/
theorem isMadeFrom_parents (hq : q.IsSound) : q.parents.IsMadeFrom q := by
  refine isMadeFrom_holding (List.nodup_eraseDups _) fun r hr => ?_
  obtain ⟨p, hp, hparent⟩ := List.mem_filterMap.1 (List.mem_eraseDups.1 hr)
  obtain ⟨d, hd, hp⟩ := hq.elements p hp
  obtain rfl | ⟨s, i, rfl⟩ := Document.eq_nil_or_concat p
  · cases hp
  · unfold Document.elementParent? at hparent
    rw [List.dropLast_concat] at hparent
    cases s with
    | nil => cases hparent
    | cons j s =>
      cases hparent
      have hsome := Document.isSome_of_isElement hp
      exact ⟨d, hd, (hq.leaves d hd hsome).resolve_left (List.cons_ne_nil j s)⟩

end NodeSet

end TreeQuery
