import TreeQuery.NodeSet.Reading
import TreeQuery.Proofs.Condition.Star
import TreeQuery.Proofs.NodeSet.Below
import TreeQuery.Proofs.NodeSet.Run
import TreeQuery.Proofs.NodeSet.Stepwise

/-!
# Copies

A copy holds the same nodes of the same document and writes them in the same way, but it does not
stand for the whole document. Nothing but a search goes by that, so that a copy answers every other
call as the set does; and a set that has been made from another does not stand for the document
either, so that its copy is the set itself.

A set that has been loaded is left. It holds the root element, and its copy is the set of that
element: it searches below it, and does not find the root element itself.

Main statements: `NodeSet.answer_copy` and `NodeSet.answer_copy_fails`.
-/

namespace TreeQuery

open XPath

namespace NodeSet

/-! ## Calls

All that a program can do with a set is listed, so that to answer every call alike is to be told
apart by none. Calls that make sets are those of runs. -/

inductive Call where
  | make (o : Operation)
  | matchesAny (selector : Text)
  | holdsAny (predicate : Path → Nat → Bool)
  | get (position : Int)
  | text
  | attr (name : Text)
  | markup
  | select (expression : Text) (context : Option Path)

inductive Answer where
  | set (q : NodeSet)
  | truth (holds : Bool)
  | node (p : Option Path)
  | nodes (ps : List Path)
  | text (content : Text)
  | value (content : Option Text)
  deriving DecidableEq, Repr

namespace Call

def answer (q : NodeSet) : Call → Query Answer
  | make o => .set <$> o.apply q
  | matchesAny s => .truth <$> q.matchesAny s
  | holdsAny p => pure (.truth (0 < (q.filterBy p).length))
  | get i => pure (.node (q.at? i))
  | text => pure (.text q.text)
  | attr n => .value <$> q.attr n
  | markup => pure (.text q.markup)
  | select x context => .nodes <$> q.select x context

def isFind : Call → Bool
  | make (.find _) => true
  | _ => false

end Call

/-! ## All calls but one

Copying forgets whether the set stands for the whole document and nothing else. Of all calls only a
search looks at that; the test of each node by `has` does search, but in a set of one node, which
does not stand for the document in either case. -/

/-- A set that does not stand for the whole document is its own copy. -/
theorem copy_of_not_isWhole {q : NodeSet} (h : q.isWhole = false) : q.copy = q := by
  cases q
  cases h
  rfl

/-- Below a node a copy searches as the set does. -/
theorem havingAmong_copy (q : NodeSet) (s : Text) (ps : List Path) :
    q.copy.havingAmong s ps = q.havingAmong s ps := by
  induction ps with
  | nil => rfl
  | cons p ps ih =>
    rw [havingAmong, havingAmong, ih]
    rfl

/-- A search apart, what an operation makes of a copy it makes of the set. -/
theorem Operation.apply_copy (q : NodeSet) {o : Operation} (h : (Call.make o).isFind = false) :
    o.apply q.copy = o.apply q := by
  cases o with
  | find => cases h
  | has s =>
    show q.copy.has s = q.has s
    rw [NodeSet.has, havingAmong_copy]
    rfl
  | filter | filterBy | exclude | excludeBy | children | parents | siblings | nexts | previous
  | closest | first | last | pick | slice => rfl

/-- A search apart, a copy answers as the set does. -/
theorem answer_copy_of_not_isFind (q : NodeSet) {c : Call} (h : c.isFind = false) :
    c.answer q.copy = c.answer q := by
  cases c with
  | make o => rw [Call.answer, Call.answer, Operation.apply_copy q h]
  | matchesAny | holdsAny | get | text | attr | markup | select => rfl

/-! ## Searches

A search in the whole document evaluates the expression as it is, and a search below a node
evaluates it with a point in front of each branch. What is between the two is the business of the
search below elements; here the node is the root. -/

theorem outcome_answer_find (q : NodeSet) (s : Text) (m : Memory) :
    (Call.answer q (.make (.find s))).outcome m = ((q.find s).outcome m).map .set :=
  Query.outcome_map _ _ _

section

variable {d : Document} {r : Path} {s : Text} {m : Memory} {asXml : Bool} {found : NodeSet}

/-- The copy of a set that stands for a document is the set of the root element. -/
theorem copy_ofDocument (hr : d.root? = some r) (asXml : Bool) :
    (ofDocument d asXml).copy = ofNodes d [r] (some asXml) := by
  have hn : d.isElement r = true := Document.mem_elements_iff.1 (List.mem_of_head? hr)
  simp [copy, ofDocument, holding, ofNodes, hn, hr]

/-- What a copy of a whole document finds is selected below the root element. -/
theorem outcome_find_copy (hr : d.root? = some r) (s : Text) (m : Memory) :
    ((ofDocument d asXml).copy.find s).outcome m =
      match (Selector.compile {} s).outcome m with
      | .ok x => (d.elementsFor (some r) (anchorAll x)).map (ofDocument d asXml).holding
      | .error e => .error (.selector e) :=
  outcome_find_single rfl rfl (congrArg Option.toList hr) s m

/-- Of what a selector as in a search below an element finds in the document, a copy finds nothing
but elements inside the root; and all of them, if every group is one compound. -/
theorem exists_find_copy (hd : d.IsTree) (hr : d.IsRootedAt r)
    (hplain : Selector.Everywhere Layout.IsPlain s)
    (hunscoped : Selector.Everywhere Layout.IsUnscoped s)
    (hopen : ∀ g ∈ Selector.groups s, ∀ t, (Selector.tokens g).head? = some t →
      Combinator.ofToken? t = none)
    (hm : m.cache.Sound) (h : ((ofDocument d asXml).find s).outcome m = .ok found) :
    ∃ below, ((ofDocument d asXml).copy.find s).outcome m = .ok below ∧
      (∀ p ∈ below.nodes, p ∈ found.nodes ∧ p ≠ r) ∧
      ((∀ g ∈ Selector.groups s, (Selector.tokens g).length = 1) →
        below.nodes = found.nodes.filter (· ≠ r)) := by
  obtain ⟨x, ps, hx, hps, rfl⟩ := exists_elementsFor_of_find h
  obtain ⟨qs, hqs, hwithin, hsingle⟩ :=
    exists_elementsFor_below hd hplain hunscoped hopen hm hx hps r
  have hbelow : ((ofDocument d asXml).copy.find s).outcome m =
      .ok ((ofDocument d asXml).holding qs) := by
    rw [outcome_find_copy hr.root, hx]
    simp only [hqs]
    rfl
  refine ⟨_, hbelow, fun p hp => ?_, fun hone => ?_⟩
  · obtain ⟨haround, hmem⟩ := hwithin p hp
    exact ⟨hmem, (Path.mem_ancestors_iff.1 haround).2.symm⟩
  · refine (hsingle hone).trans (List.filter_congr fun p hp => ?_)
    -- All elements stand in the root, which is the only one that is not below it.
    have haround : r <+: p := hr.around (isElement_of_elementsFor hps p hp)
    rw [Bool.eq_iff_iff, List.contains_iff_mem, Path.mem_ancestors_iff, decide_eq_true_eq,
      and_iff_right haround, ne_comm]

end

/-! ## The law

Only a set that has been loaded stands for a document, and a document that has been loaded has one
root, around all its other elements. This is what turns "below the root" into "all but the root". -/

theorem isWhole_ofNodes (d : Document) (ps : List Path) (asXml : Option Bool) :
    (ofNodes d ps asXml).isWhole = false := by
  unfold ofNodes
  simp only
  split <;> rfl

/-- Of the sets to start with only those that have been loaded stand for a document. -/
theorem IsStart.exists_isGrown {q : NodeSet} (h : q.IsStart) (hq : q.isWhole = true) :
    ∃ d, q = ofDocument d q.asXml ∧ d.IsGrown := by
  have hloaded (h : q.IsLoaded) : ∃ d, q = ofDocument d q.asXml ∧ d.IsGrown := by
    rcases h with ⟨asXml, rfl⟩ | ⟨d, asXml, rfl, hd⟩
    · cases hq
    · exact ⟨d, rfl, hd⟩
  cases h with
  | loaded h => exact hloaded (isLoaded_of_load h)
  | loadedBytes h => exact hloaded (isLoaded_of_loadBytes h)
  | listed =>
    rw [isWhole_ofNodes] at hq
    cases hq

/-- A copy of any set answers every call as the set does, and leaves the same memory, unless the set
stands for a document and the call is a search. In a run only the set that has been loaded does so,
and its copy is the set of the root element, which all other elements lie in. For a selector that is
at fault both have the same error. Otherwise the set finds what the expression selects in the
document, and the copy what it selects when it is made to begin at the root element: for a selector
without escapes in tags, without apostrophes in texts and without `:first` and `:last` in which no
group opens with a combinator, only what the set finds too, and never the root element; and all but
the root element, if every group is one compound. -/
theorem answer_copy (q : NodeSet) :
    (∀ c : Call, q.isWhole = false ∨ c.isFind = false → c.answer q.copy = c.answer q) ∧
    ∀ start : NodeSet, start.IsStart → ∀ (m : Memory) (calls : List (Nat × Operation)),
      q ∈ start :: (Holdings.run { start := start, memory := m } calls).made →
      q.isWhole = true → ∃ d r, q = ofDocument d q.asXml ∧ d.IsRootedAt r ∧
      q.copy = ofNodes d [r] (some q.asXml) ∧
      ∀ (s : Text) (m' : Memory),
        (∀ e, (Selector.compile {} s).outcome m' = .error e →
          (q.find s).outcome m' = .error (.selector e) ∧
          (q.copy.find s).outcome m' = .error (.selector e)) ∧
        (∀ x, (Selector.compile {} s).outcome m' = .ok x →
          (q.find s).outcome m' = (d.elementsFor none x).map q.holding ∧
          (q.copy.find s).outcome m' = (d.elementsFor (some r) (anchorAll x)).map q.holding) ∧
        (d.IsTree → Selector.Everywhere Layout.IsPlain s →
          Selector.Everywhere Layout.IsUnscoped s →
          (∀ g ∈ Selector.groups s, ∀ t, (Selector.tokens g).head? = some t →
            Combinator.ofToken? t = none) →
          m'.cache.Sound → ∀ found, (q.find s).outcome m' = .ok found →
          ∃ below, (q.copy.find s).outcome m' = .ok below ∧
            (∀ p ∈ below.nodes, p ∈ found.nodes ∧ p ≠ r) ∧
            ((∀ g ∈ Selector.groups s, (Selector.tokens g).length = 1) →
              below.nodes = found.nodes.filter (· ≠ r))) := by
  refine ⟨fun c hc => ?_, fun start hstart m calls hq hwhole => ?_⟩
  · rcases hc with hnot | hfind
    · rw [copy_of_not_isWhole hnot]
    · exact answer_copy_of_not_isFind q hfind
  · -- What has been made in the run does not stand for the document.
    obtain rfl : q = start := by
      rcases List.mem_cons.1 hq with rfl | hmade
      · rfl
      · have hfrom := (Holdings.isMadeFrom_of_mem_run (h := { start := start, memory := m })
          hstart.isSound nofun calls).2 q hmade
        rw [hfrom.isWhole] at hwhole
        cases hwhole
    obtain ⟨d, hd, hgrown⟩ := hstart.exists_isGrown hwhole
    obtain ⟨r, hr⟩ := hgrown.exists_isRootedAt
    refine ⟨d, r, hd, hr, ?_, fun s m' => ?_⟩
    · rw [hd]
      exact copy_ofDocument hr.root q.asXml
    · rw [hd]
      refine ⟨fun e he => ?_, fun x hx => ?_, fun htree hplain hunscoped hopen hm found hfound =>
        exists_find_copy htree hr hplain hunscoped hopen hm hfound⟩
      · rw [outcome_find rfl rfl, outcome_find_copy hr.root, he]
        exact ⟨rfl, rfl⟩
      · rw [outcome_find rfl rfl, outcome_find_copy hr.root, hx]
        exact ⟨rfl, rfl⟩

def oneInAnother : Document where
  content := .cons (.element ⟨[], [], ['b']⟩ [] [])
    (.cons (.element ⟨[], [], ['b']⟩ [] []) .nil .nil) .nil

theorem load_oneInAnother :
    load "<b><b></b></b>".toList (some true) = .ok (ofDocument oneInAnother true) := by
  decide +kernel

/-- The copy writes the outer element as the set does, and is the set of that element. -/
theorem answer_copy_oneInAnother :
    ofDocument oneInAnother true ∈ ofDocument oneInAnother true :: (Holdings.run
      { start := ofDocument oneInAnother true } [(0, .children none), (1, .parents none)]).made ∧
    (Call.answer (ofDocument oneInAnother true).copy .markup).outcome {} =
      .ok (.text "<b><b/></b>".toList) ∧
    ∃ r, oneInAnother.IsRootedAt r ∧
      (ofDocument oneInAnother true).copy = ofNodes oneInAnother [r] (some true) := by
  have hmem : ofDocument oneInAnother true ∈ ofDocument oneInAnother true :: (Holdings.run
      { start := ofDocument oneInAnother true } [(0, .children none), (1, .parents none)]).made :=
    List.mem_cons_self
  obtain ⟨hall, hwhole⟩ := answer_copy (ofDocument oneInAnother true)
  obtain ⟨d, r, hd, hr, hcopy, -⟩ := hwhole _ (.loaded load_oneInAnother) {} _ hmem rfl
  cases hd
  refine ⟨hmem, ?_, r, hr, hcopy⟩
  rw [hall .markup (.inr rfl)]
  decide +kernel

/-- Both elements are found in the document that has been loaded; its copy does not find the outer
one. -/
theorem answer_copy_fails :
    load "<b><b></b></b>".toList (some true) = .ok (ofDocument oneInAnother true) ∧
    (Call.answer (ofDocument oneInAnother true) (.make (.find ['b']))).outcome {} =
      .ok (.set ((ofDocument oneInAnother true).holding [[0], [0, 0]])) ∧
    (Call.answer (ofDocument oneInAnother true).copy (.make (.find ['b']))).outcome {} =
      .ok (.set ((ofDocument oneInAnother true).holding [[0, 0]])) := by
  have hx : oneInAnother.Selects ['b'] [Pattern.onlyB []] [[0], [0, 0]] := by decide +kernel
  have hcompile : (Selector.compile {} ['b']).outcome {} = _ := hx.outcome Cache.sound_empty
  have hbelow : oneInAnother.elementsFor (some [0]) (anchorAll (Pattern.xpath [Pattern.onlyB []])) =
      .ok [[0, 0]] :=
    Document.elementsFor_of_select? (by decide) (Pattern.reads_anchorAll (by decide)).ofText?
      (by decide +kernel)
  refine ⟨load_oneInAnother, ?_, ?_⟩
  · rw [outcome_answer_find, outcome_find rfl rfl, hcompile]
    simp only [hx.elementsFor]
    rfl
  · rw [outcome_answer_find, outcome_find_copy (r := [0]) (by decide), hcompile]
    simp only [hbelow]
    rfl

end NodeSet

end TreeQuery
