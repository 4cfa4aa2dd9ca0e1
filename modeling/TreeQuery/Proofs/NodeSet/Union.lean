import TreeQuery.Proofs.Condition.Has
import TreeQuery.Proofs.Groups.Order

/-!
# Finding below several nodes

What is found below several nodes is what is found below each of them, put together, and in document
order. What is found below one node is in document order already, so that only what comes from
several nodes is put in order; and what is found below nested nodes is found more than once, but
is kept once.

Main statement: `NodeSet.nodes_find_union`.
-/

namespace TreeQuery

open XPath

namespace NodeSet

/-! ## Putting together

What is selected for each node is put together from the last node to the first, and relieved of
repetitions each time. As to which members there are, this is the union of the lists. -/

/-- The members of several lists, each once. -/
def together (fs : List (List Path)) : List Path := fs.foldr (fun f rest => (f ++ rest).eraseDups) []

section

variable {fs : List (List Path)} {p : Path}

/-- The members are those of the lists. -/
theorem mem_together : p ∈ together fs ↔ ∃ f ∈ fs, p ∈ f := by
  induction fs with
  | nil => simp [together]
  | cons f fs ih =>
    have hcons : together (f :: fs) = (f ++ together fs).eraseDups := rfl
    rw [hcons, List.mem_eraseDups, List.mem_append, ih, List.exists_mem_cons_iff]

/-- A single list without repetitions stays as it is. -/
theorem together_singleton {f : List Path} (h : f.Nodup) : together [f] = f := by
  show (f ++ []).eraseDups = f
  rw [List.append_nil, List.eraseDups_of_nodup h]

end

/-! ## Searching below each node

The memory changes while the nodes are gone through, by what is recorded, but nothing that is
selected depends on it. The search is therefore a sequence of results, one for each node. -/

section

variable {q : NodeSet} {d : Document} {s : Text} {m : Memory} {x : Text}

/-- What an expression selects for each of some nodes does not depend on the memory. -/
theorem outcome_selectBelow {ps : List Path} (hps : ∀ p ∈ ps, q.document = some d) :
    (q.selectBelow x ps).outcome m =
      (ps.mapM fun p => d.elementsFor (some p) x).map together := by
  induction ps generalizing m with
  | nil => rfl
  | cons p ps ih =>
    rw [List.forall_mem_cons] at hps
    rw [selectBelow, Query.outcome_bind, outcome_select hps.1, List.mapM_cons]
    cases d.elementsFor (some p) x with
    | error e => rfl
    | ok f =>
      simp only [Query.outcome_bind, ih hps.2]
      cases ps.mapM fun p => d.elementsFor (some p) x <;> rfl

end

/-- What has been selected for each node of a set, put together and in order. -/
def arranged (q : NodeSet) (fs : List (List Path)) : List Path :=
  if 1 < q.length && 1 < (together fs).length then q.inOrder (together fs) else together fs

section

variable {q : NodeSet} {d : Document} {s : Text} {m : Memory} {x : Text}

/-- Unless it stands for the whole document, a set finds what the expression selects for each of its
nodes. -/
theorem outcome_find_below (hwhole : q.isWhole = false) (hq : ∀ n ∈ q.nodes, q.document = some d)
    (hx : (Selector.compile {} s).outcome m = .ok x) : (q.find s).outcome m =
      (q.nodes.mapM fun n => d.elementsFor (some n) (anchorAll x)).map
        fun fs => q.holding (q.arranged fs) := by
  rw [find, Query.outcome_bind, Query.outcome_compile, hx]
  simp only [Except.mapError, hwhole, Bool.false_eq_true, if_false, Query.outcome_bind,
    outcome_selectBelow hq]
  cases q.nodes.mapM fun n => d.elementsFor (some n) (anchorAll x) <;> rfl

/-- To find anything below a set is to select something for each of its nodes. -/
theorem exists_elementsFor_of_find_below {found : NodeSet} (hwhole : q.isWhole = false)
    (hq : ∀ n ∈ q.nodes, q.document = some d) (h : (q.find s).outcome m = .ok found) :
    ∃ x, (Selector.compile {} s).outcome m = .ok x ∧ ∃ f : Path → List Path,
      (∀ n ∈ q.nodes, d.elementsFor (some n) (anchorAll x) = .ok (f n)) ∧
      found.nodes = q.arranged (q.nodes.map f) := by
  obtain ⟨x, hx⟩ := exists_compile_of_find h
  rw [outcome_find_below hwhole hq hx] at h
  obtain ⟨fs, hfs, rfl⟩ := Except.map_eq_ok h
  have hall := Except.exists_mapM_eq_ok_iff.1 ⟨fs, hfs⟩
  choose! f hf using hall
  obtain rfl := Except.ok.inj (hfs.symm.trans (Except.mapM_eq_ok hf))
  exact ⟨x, hx, f, hf, rfl⟩

/-! ## The order

Only where more than one node has come to more than one element is anything put in order. The other
cases are in order already: what one node comes to is as the evaluation has sorted it. -/

variable {f : Path → List Path}

/-- To put elements in order changes nothing about which they are. -/
theorem mem_arranged_iff (hq : ∀ n ∈ q.nodes, q.document = some d)
    (hf : ∀ n ∈ q.nodes, d.elementsFor (some n) x = .ok (f n)) {p : Path} :
    p ∈ q.arranged (q.nodes.map f) ↔ ∃ n ∈ q.nodes, p ∈ f n := by
  have hmem : p ∈ together (q.nodes.map f) ↔ ∃ n ∈ q.nodes, p ∈ f n := by
    simp only [mem_together, List.mem_map, exists_exists_and_eq_and]
  rw [arranged]
  split
  · next hseveral =>
    rw [Bool.and_eq_true, decide_eq_true_eq, decide_eq_true_eq] at hseveral
    obtain ⟨n, hn⟩ := List.exists_mem_of_length_pos (Nat.lt_of_succ_lt hseveral.1)
    rw [inOrder, hq n hn]
    simp only [List.mem_filter, List.contains_iff_mem]
    rw [Document.mem_elements_iff, hmem, and_iff_right_iff_imp]
    rintro ⟨n, hn, hp⟩
    exact isElement_of_elementsFor (hf n hn) p hp
  · exact hmem

/-- What is selected for each node is in document order, and so is what is put together. -/
theorem pairwise_before_arranged (hq : ∀ n ∈ q.nodes, q.document = some d)
    (hf : ∀ n ∈ q.nodes, d.elementsFor (some n) x = .ok (f n)) :
    (q.arranged (q.nodes.map f)).Pairwise fun p r => Path.before p r = true := by
  have hcases {l : List Path} (h : l.length ≤ 1) : l = [] ∨ ∃ p, l = [p] :=
    (Nat.le_one_iff_eq_zero_or_eq_one.1 h).imp List.length_eq_zero_iff.1 List.length_eq_one_iff.1
  rw [arranged]
  split
  · next hseveral =>
    rw [Bool.and_eq_true, decide_eq_true_eq, decide_eq_true_eq] at hseveral
    obtain ⟨n, hn⟩ := List.exists_mem_of_length_pos (Nat.lt_of_succ_lt hseveral.1)
    rw [inOrder, hq n hn]
    exact d.pairwise_before_elements.filter _
  · next hfew =>
    rw [Bool.and_eq_true, decide_eq_true_eq, decide_eq_true_eq, not_and_or, Nat.not_lt,
      Nat.not_lt] at hfew
    rcases hfew with hone | hshort
    · -- What one node comes to is in order as it is.
      rcases hcases hone with hnodes | ⟨n, hnodes⟩
      · rw [hnodes]
        exact .nil
      · have hn := hf n (by rw [hnodes]; exact List.mem_singleton_self n)
        rw [hnodes, List.map_singleton, together_singleton (Document.nodup_of_elementsFor hn)]
        exact Document.pairwise_before_of_elementsFor hn
    · rcases hcases hshort with hnil | ⟨p, hp⟩
      · rw [hnil]
        exact .nil
      · rw [hp]
        exact List.pairwise_singleton _ p

end

/-! ## The union

For the set of one node the same search is made, so that the sets below single nodes are given by
the same expression. That another set with the same nodes comes to the same list follows from the
order: a list in document order is determined by its members. -/

/-- The nodes below a set that match a selector, whatever the nodes are of which the set is made:
they are in document order, each once, and they are those that are found below the nodes one by one.
So they are the same for any other set of these nodes; and whatever is remembered of selectors,
nothing else is found. -/
theorem nodes_find_union {q : NodeSet} {d : Document} (hwhole : q.isWhole = false)
    (hq : ∀ n ∈ q.nodes, q.document = some d ∧ d.isElement n = true) {s : Text} {m : Memory}
    (hm : m.cache.Sound) {found : NodeSet} (h : (q.find s).outcome m = .ok found)
    (asXml : Option Bool) : ∃ below : Path → NodeSet,
      (∀ n ∈ q.nodes, ((ofNodes d [n] asXml).find s).outcome m = .ok (below n) ∧
        ∀ m' : Memory, m'.cache.Sound → ∀ other,
          ((ofNodes d [n] asXml).find s).outcome m' = .ok other → other = below n) ∧
      found.nodes.Pairwise (fun p r => Path.before p r = true) ∧ found.nodes.Nodup ∧
      (∀ p, p ∈ found.nodes ↔ ∃ n ∈ q.nodes, p ∈ (below n).nodes) ∧
      ∀ q' : NodeSet, q'.isWhole = false → q'.document = q.document →
        (∀ n, n ∈ q'.nodes ↔ n ∈ q.nodes) →
        (∃ found', (q'.find s).outcome m = .ok found') ∧
        ∀ m' : Memory, m'.cache.Sound → ∀ found', (q'.find s).outcome m' = .ok found' →
          found'.nodes = found.nodes := by
  have hdocument : ∀ n ∈ q.nodes, q.document = some d := fun n hn => (hq n hn).1
  obtain ⟨x, hx, f, hf, hfound⟩ := exists_elementsFor_of_find_below hwhole hdocument h
  -- With caches that are sound the selector is compiled to the same text every time.
  obtain ⟨p, hp, rfl⟩ := Selector.exists_pattern_of_outcome hm hx
  have hordered := pairwise_before_arranged hdocument hf
  refine ⟨fun n => (ofNodes d [n] asXml).holding (f n), fun n hn => ⟨?_, ?_⟩, ?_, ?_, ?_, ?_⟩
  · exact outcome_find_ofNodes (hq n hn).2 hx (hf n hn)
  · intro m' hm' other hother
    obtain ⟨x', hx'⟩ := exists_compile_of_find_ofNodes (hq n hn).2 hother
    obtain rfl := Selector.eq_xpath_of_outcome hp hm' hx'
    exact Except.ok.inj (hother.symm.trans (outcome_find_ofNodes (hq n hn).2 hx' (hf n hn)))
  · rw [hfound]
    exact hordered
  · rw [hfound]
    exact Document.nodup_of_pairwise_before hordered
  · intro p
    rw [hfound]
    exact mem_arranged_iff hdocument hf
  · intro q' hwhole' hsame hmem
    have hdocument' : ∀ n ∈ q'.nodes, q'.document = some d := fun n hn =>
      hsame.trans (hdocument n ((hmem n).1 hn))
    have hf' : ∀ n ∈ q'.nodes, d.elementsFor (some n) (anchorAll p.xpath) = .ok (f n) :=
      fun n hn => hf n ((hmem n).1 hn)
    refine ⟨?_, fun m' hm' found' hfound' => ?_⟩
    · rw [outcome_find_below hwhole' hdocument' hx, Except.mapM_eq_ok hf']
      exact ⟨_, rfl⟩
    · obtain ⟨x', hx'⟩ := exists_compile_of_find hfound'
      obtain rfl := Selector.eq_xpath_of_outcome hp hm' hx'
      rw [outcome_find_below hwhole' hdocument' hx', Except.mapM_eq_ok hf'] at hfound'
      cases hfound'
      rw [hfound]
      -- Both are in order and have the same members, so that they are the same list.
      refine Document.eq_of_pairwise_before (pairwise_before_arranged hdocument' hf') hordered ?_
      intro r
      show r ∈ q'.arranged (q'.nodes.map f) ↔ _
      rw [mem_arranged_iff hdocument' hf', mem_arranged_iff hdocument hf]
      simp only [hmem]

/-! ## A sample

The root is in the set together with two elements inside it, and one of these twice, so that each
`b` is found twice. -/

def anyB : Pattern := [Pattern.onlyB []]

theorem elementsFor_anyB {n : Path} {ps : List Path}
    (h : ((Pattern.anchoredExpr anyB).select? rows (.tree n)).map
      (·.filterMap (·.element? rows)) = some ps) :
    rows.elementsFor (some n) (anchorAll anyB.xpath) = .ok ps :=
  Document.elementsFor_of_select? (by decide) (Pattern.reads_anchorAll (by decide)).ofText? h

def aroundB : NodeSet := { document := some rows, nodes := [[0, 1], [0], [0, 1], [0, 0]] }

/-- What is found below the root is found below one of the others too. -/
theorem nodes_find_union_rows : aroundB.isWhole = false ∧
    (∀ n ∈ aroundB.nodes, aroundB.document = some rows ∧ rows.isElement n = true) ∧
    ∃ found, (aroundB.find ['b']).outcome {} = .ok found ∧
      found.nodes = [[0, 0, 0], [0, 1, 0]] ∧
      ∃ below : Path → NodeSet, (∀ n ∈ aroundB.nodes,
          ((ofNodes rows [n] none).find ['b']).outcome {} = .ok (below n)) ∧
        ∀ p, p ∈ found.nodes ↔ ∃ n ∈ aroundB.nodes, p ∈ (below n).nodes := by
  have hq : ∀ n ∈ aroundB.nodes, aroundB.document = some rows ∧ rows.isElement n = true := by
    decide
  have hcompile : (Selector.compile {} ['b']).outcome {} = .ok anyB.xpath := by decide +kernel
  let f : Path → List Path := fun n =>
    if n = [0] then [[0, 0, 0], [0, 1, 0]] else if n = [0, 1] then [[0, 1, 0]] else [[0, 0, 0]]
  have hf : ∀ n ∈ aroundB.nodes, rows.elementsFor (some n) (anchorAll anyB.xpath) = .ok (f n) := by
    intro n hn
    have hn : n = [0, 1] ∨ n = [0] ∨ n = [0, 1] ∨ n = [0, 0] := by simpa [aroundB] using hn
    rcases hn with rfl | rfl | rfl | rfl <;> exact elementsFor_anyB (by decide +kernel)
  have hfind : (aroundB.find ['b']).outcome {} =
      .ok (aroundB.holding (aroundB.arranged (aroundB.nodes.map f))) := by
    rw [outcome_find_below rfl (fun n hn => (hq n hn).1) hcompile, Except.mapM_eq_ok hf]
    rfl
  obtain ⟨below, hbelow, -, -, hunion, -⟩ :=
    nodes_find_union rfl hq Cache.sound_empty hfind none
  exact ⟨rfl, hq, _, hfind, by decide, below, fun n hn => (hbelow n hn).1, hunion⟩

end NodeSet

end TreeQuery
