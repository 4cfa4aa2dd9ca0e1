import TreeQuery.Proofs.NodeSet.Below
import TreeQuery.Proofs.Tree.Loaded

/-!
# Runs of operations

A program starts with a set and calls operations, each on some set that it has. A call that fails
leaves the sets as they are. All sets of such a run hold distinct elements of the one document, and
those that have been made keep to the document and the way of writing of the first.

Main statement: `NodeSet.isMadeFrom_run`.
-/

namespace TreeQuery

open XPath

namespace NodeSet

/-! ## Where a run starts

Listed nodes may belong to no element, as a list of results may hold texts or attributes. They are
left out before the set is made, and only elements have to be distinct. What is loaded has one node,
so that this is no question there. -/

/-- A set that a run starts with: one that has been loaded, or a list of nodes of one tree, in which
no element is repeated; anything that is no element may be in the list. -/
inductive IsStart : NodeSet → Prop where
  | loaded {s : Text} {asXml : Option Bool} {q : NodeSet} (load : load s asXml = .ok q) : IsStart q
  | loadedBytes {bytes : List UInt8} {asXml : Option Bool} {q : NodeSet}
      (load : loadBytes bytes asXml = .ok q) : IsStart q
  | listed {d : Document} {ps : List (Option Path)} {asXml : Option Bool} (tree : d.IsTree)
      (distinct : ((ps.filterMap id).filter d.isElement).Nodup) :
      IsStart (ofNodes d (ps.filterMap id) asXml)

theorem isSound_empty (asXml : Option Bool) : (empty asXml).IsSound where
  distinct := .nil
  elements := by simp [HoldsElements, empty]
  leaves _ h := nomatch h

/-- What has been loaded is sound: it has no node, or the root of a tree. -/
theorem IsLoaded.isSound {q : NodeSet} (h : q.IsLoaded) : q.IsSound := by
  rcases h with ⟨asXml, rfl⟩ | ⟨d, asXml, rfl, hd⟩
  · exact isSound_empty asXml
  · refine ⟨?_, fun p hp => ?_, ?_⟩
    · show d.root?.toList.Nodup
      cases d.root? <;> simp
    · have hroot : d.elements.head? = some p := Option.mem_toList.1 hp
      exact ⟨d, rfl, Document.mem_elements_iff.1 (List.mem_of_head? hroot)⟩
    · intro e he
      cases he
      exact Document.leaves_of_elementsContain hd.elementsContain

/-- A list of elements without repetitions is sound. -/
theorem isSound_ofNodes {d : Document} {ps : List Path} (hd : d.IsTree)
    (hps : (ps.filter d.isElement).Nodup) (asXml : Option Bool) :
    (ofNodes d ps asXml).IsSound := by
  unfold ofNodes
  simp only
  split
  · exact isSound_empty asXml
  · refine ⟨hps, fun p hp => ⟨d, rfl, (List.mem_filter.1 hp).2⟩, ?_⟩
    intro e he
    cases he
    exact hd.leaves

theorem IsStart.isSound {q : NodeSet} (h : q.IsStart) : q.IsSound := by
  cases h with
  | loaded h => exact (isLoaded_of_load h).isSound
  | loadedBytes h => exact (isLoaded_of_loadBytes h).isSound
  | listed hd hps => exact isSound_ofNodes hd hps _

/-! ## Operations

The operations that make sets. All others only tell something about one, and leave nothing that an
operation could be called on. -/

/-- An operation that makes a set. Where a selector need not be given, the set that is made is
narrowed by it. A position is asked for in the same way by either of two names. -/
inductive Operation where
  | find (selector : Text)
  | filter (selector : Text)
  | filterBy (predicate : Path → Nat → Bool)
  | exclude (selector : Text)
  | excludeBy (predicate : Path → Nat → Bool)
  | has (selector : Text)
  | children (selector : Option Text)
  | parents (selector : Option Text)
  | siblings (selector : Option Text)
  | nexts (selector : Option Text)
  | previous (selector : Option Text)
  | closest (selector : Text)
  | first
  | last
  | pick (position : Int)
  | slice (start : Int) (stop : Option Int)

def Operation.apply (q : NodeSet) : Operation → Query NodeSet
  | find s => q.find s
  | filter s => q.filter s
  | filterBy p => pure (q.filterBy p)
  | exclude s => q.exclude s
  | excludeBy p => pure (q.excludeBy p)
  | has s => q.has s
  | children s => q.children.narrow s
  | parents s => q.parents.narrow s
  | siblings s => q.siblings.narrow s
  | nexts s => q.nexts.narrow s
  | previous s => q.previous.narrow s
  | closest s => q.closest s
  | first => pure q.first
  | last => pure q.last
  | pick i => pure (q.pick i)
  | slice start stop => pure (q.slice start stop)

/-- One operation: what it makes of a sound set is sound and made from that. -/
theorem Operation.ensures_apply {q : NodeSet} (hq : q.IsSound) (o : Operation) :
    Query.Ensures (·.IsMadeFrom q) (o.apply q) := by
  cases o with
  | find s => exact ensures_find q s
  | filter s => exact ensures_filter hq s
  | filterBy p => exact .pure (isMadeFrom_filterBy hq p)
  | exclude s => exact ensures_exclude hq s
  | excludeBy p => exact .pure (isMadeFrom_excludeBy hq p)
  | has s => exact ensures_has hq s
  | children s => exact ensures_narrow (isMadeFrom_children hq) hq s
  | parents s => exact ensures_narrow (isMadeFrom_parents hq) hq s
  | siblings s => exact ensures_narrow (isMadeFrom_siblings q) hq s
  | nexts s => exact ensures_narrow (isMadeFrom_nexts hq) hq s
  | previous s => exact ensures_narrow (isMadeFrom_previous hq) hq s
  | closest s => exact ensures_closest hq s
  | first => exact .pure (isMadeFrom_pick hq 0)
  | last => exact .pure (isMadeFrom_pick hq (-1))
  | pick i => exact .pure (isMadeFrom_pick hq i)
  | slice start stop => exact .pure (isMadeFrom_slice hq start stop)

/-! ## Runs

A program holds several sets at a time and may go back to an earlier one, so that a run is not a
chain of operations but a growing list. The invariant is about all sets in the list and refers each
to the first, which makes it stable under a call on any of them. -/

/-- What a program has: a set to start with, the sets that have been made from it, earliest first,
and what is remembered of selectors. -/
structure Holdings where
  start : NodeSet
  made : List NodeSet := []
  memory : Memory := {}

namespace Holdings

/-- The set with a number; the start has number zero. -/
def set? (h : Holdings) (i : Nat) : Option NodeSet := (h.start :: h.made)[i]?

def call (h : Holdings) (i : Nat) (o : Operation) : Holdings :=
  match h.set? i with
  | none => h
  | some q =>
    match (o.apply q).outcome h.memory with
    | .ok r => { h with made := h.made ++ [r], memory := (o.apply q).after h.memory }
    | .error _ => { h with memory := (o.apply q).after h.memory }

def run (h : Holdings) (calls : List (Nat × Operation)) : Holdings :=
  calls.foldl (fun h c => h.call c.1 c.2) h

/-- A call that comes to a set adds it. -/
theorem made_call_of_outcome {h : Holdings} {i : Nat} {o : Operation} {q r : NodeSet}
    (hq : h.set? i = some q) (hr : (o.apply q).outcome h.memory = .ok r) :
    (h.call i o).made = h.made ++ [r] := by
  rw [call, hq]
  simp only [hr]

/-- One call: the sets that there were stay, and what is made is made from the start. -/
theorem isMadeFrom_call {h : Holdings} (hstart : h.start.IsSound)
    (hmade : ∀ r ∈ h.made, r.IsMadeFrom h.start) (i : Nat) (o : Operation) :
    (h.call i o).start = h.start ∧ ∀ r ∈ (h.call i o).made, r.IsMadeFrom h.start := by
  unfold call
  split
  · exact ⟨rfl, hmade⟩
  · next q hq =>
    split
    · next r hr =>
      refine ⟨rfl, fun s hs => ?_⟩
      rcases List.mem_append.1 hs with hs | hs
      · exact hmade s hs
      · obtain rfl := List.mem_singleton.1 hs
        -- The call is on the start, or on a set that has been made from it.
        rcases List.mem_cons.1 (List.mem_of_getElem? hq) with rfl | hmem
        · exact (o.ensures_apply hstart).of_outcome _ _ hr
        · have hfrom := hmade q hmem
          have hmadeFrom := (o.ensures_apply (hfrom.isSound hstart)).of_outcome _ _ hr
          exact hmadeFrom.trans hfrom
    · exact ⟨rfl, hmade⟩

/-- A run: by induction on its calls, every set that is made is made from the start. -/
theorem isMadeFrom_of_mem_run {h : Holdings} (hstart : h.start.IsSound)
    (hmade : ∀ r ∈ h.made, r.IsMadeFrom h.start) (calls : List (Nat × Operation)) :
    (h.run calls).start = h.start ∧ ∀ r ∈ (h.run calls).made, r.IsMadeFrom h.start := by
  induction calls generalizing h with
  | nil => exact ⟨rfl, hmade⟩
  | cons c calls ih =>
    obtain ⟨hsame, hcall⟩ := isMadeFrom_call hstart hmade c.1 c.2
    -- The start of the rest of the run is the same set.
    have hrun := ih (h := h.call c.1 c.2) (by rwa [hsame]) (by rwa [hsame])
    rwa [hsame] at hrun

end Holdings

/-- Whatever operations are called on a set to start with and on the sets that are made, each holds
distinct elements of the document, and each that is made has the document and the way of writing of
the first and does not stand for the whole document. -/
theorem isMadeFrom_run {q : NodeSet} (hq : q.IsStart) (m : Memory)
    (calls : List (Nat × Operation)) :
    (q.nodes.Nodup ∧ ∀ p ∈ q.nodes, ∃ d, q.document = some d ∧ d.isElement p = true) ∧
      ∀ r ∈ (Holdings.run { start := q, memory := m } calls).made, r.nodes.Nodup ∧
        (∀ p ∈ r.nodes, ∃ d, q.document = some d ∧ d.isElement p = true) ∧
        r.isWhole = false ∧ r.document = q.document ∧ r.asXml = q.asXml := by
  have hsound := hq.isSound
  have hrun := Holdings.isMadeFrom_of_mem_run (h := { start := q, memory := m }) hsound
    (by simp) calls
  refine ⟨⟨hsound.distinct, hsound.elements⟩, fun r hr => ?_⟩
  have hfrom := hrun.2 r hr
  refine ⟨hfrom.distinct, fun p hp => ?_, hfrom.isWhole, hfrom.document, hfrom.asXml⟩
  rw [← hfrom.document]
  exact hfrom.elements p hp

def twoAroundComment : Document where
  content := .cons (.element ⟨[], [], ['a']⟩ [] [])
    (.cons (.element ⟨[], [], ['b']⟩ [] []) .nil
      (.cons (.comment ['c']) .nil (.cons (.element ⟨[], [], ['b']⟩ [] []) .nil .nil))) .nil

def besideComment : NodeSet := ofNodes twoAroundComment [[0, 0], [0, 1]] none

theorem outcome_find_below_comment :
    ((besideComment.holding [[0]]).find ['b']).outcome {} =
      .ok (besideComment.holding [[0, 0], [0, 2]]) := by
  have hcompile : (Selector.compile {} ['b']).outcome {} =
      .ok (Pattern.xpath [.start none (.mk ['b'] [] [])]) := by decide +kernel
  have hbelow : twoAroundComment.elementsFor (some [0])
      (anchorAll (Pattern.xpath [.start none (.mk ['b'] [] [])])) = .ok [[0, 0], [0, 2]] :=
    Document.elementsFor_of_select? (by decide) (Pattern.reads_anchorAll (by decide)).ofText?
      (by decide +kernel)
  rw [outcome_find_single (d := twoAroundComment) rfl rfl rfl, hcompile]
  simp only [hbelow]
  rfl

/-- A run that starts with an element, the comment behind it and something that is no node, and goes
on to the next element, up to the parent and down again. -/
theorem isMadeFrom_run_twoAroundComment :
    besideComment.IsStart ∧
      ∃ made : List NodeSet,
        (Holdings.run { start := besideComment }
          [(0, .nexts none), (1, .parents none), (2, .find ['b'])]).made = made ∧
        made.map nodes = [[[0, 2]], [[0]], [[0, 0], [0, 2]]] ∧
        ∀ r ∈ made, r.nodes.Nodup ∧
          (∀ p ∈ r.nodes, ∃ d, besideComment.document = some d ∧ d.isElement p = true) ∧
          r.isWhole = false ∧ r.document = besideComment.document ∧ r.asXml = besideComment.asXml := by
  have htree : twoAroundComment.IsTree := Document.isTree_of_isProper (by decide)
  have hstart : IsStart besideComment :=
    @IsStart.listed _ [some [0, 0], none, some [0, 1]] none htree (by decide)
  have hnext : Holdings.call ⟨besideComment, [], {}⟩ 0 (.nexts none) =
      ⟨besideComment, [besideComment.holding [[0, 2]]], {}⟩ := rfl
  have hup : Holdings.call ⟨besideComment, [besideComment.holding [[0, 2]]], {}⟩ 1 (.parents none) =
      ⟨besideComment, [besideComment.holding [[0, 2]], besideComment.holding [[0]]], {}⟩ := rfl
  refine ⟨hstart, _, rfl, ?_, (isMadeFrom_run hstart {} _).2⟩
  show (((Holdings.call ⟨besideComment, [], {}⟩ 0 (.nexts none)).call 1 (.parents none)).call 2
    (.find ['b'])).made.map nodes = _
  have hdown := Holdings.made_call_of_outcome
    (h := ⟨besideComment, [besideComment.holding [[0, 2]], besideComment.holding [[0]]], {}⟩)
    (i := 2) (o := .find ['b']) rfl outcome_find_below_comment
  rw [hnext, hup, hdown]
  rfl

end NodeSet

end TreeQuery
