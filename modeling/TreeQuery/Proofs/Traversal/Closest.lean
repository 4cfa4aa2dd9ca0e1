import TreeQuery.Proofs.Adjacency.Law
import TreeQuery.Proofs.Compilation.Again
import TreeQuery.Proofs.Condition.Has
import TreeQuery.Proofs.NodeSet.Below
import TreeQuery.Proofs.NodeSet.Sound
import TreeQuery.Proofs.NodeSet.Stepwise

/-!
# The closest match

From each node of a set the search goes up until it meets an element that the selector matches
somewhere in the document. All that lies around a node lies in a row, so that what is met first is
the innermost; what has been met from one node is not listed again for another.

That an element matches is decided by the same expression, evaluated for the whole document, whether
it is asked for on the way up or of the element alone. So what has been met matches by itself, and
is closest to itself.

Main statement: `NodeSet.nodes_closest`.
-/

namespace TreeQuery

/-! ## Going up

The way up from a node is listed from the inside, so that the first that matches is the innermost.
Paths that begin one node are comparable, which makes the innermost one unique. -/

/-- The innermost of a node and what it lies in that a list holds. -/
structure IsInnermost (matched : List Path) (n a : Path) : Prop where
  around : a <+: n
  mem : a ∈ matched
  innermost : ∀ b ∈ matched, b <+: n → b <+: a

namespace IsInnermost

variable {matched : List Path} {n a b : Path}

/-- The innermost is unique. -/
theorem eq (ha : IsInnermost matched n a) (hb : IsInnermost matched n b) : a = b := by
  have hab : a <+: b := hb.innermost a ha.mem ha.around
  have hba : b <+: a := ha.innermost b hb.mem hb.around
  exact hab.eq_of_length_le hba.length_le

end IsInnermost

namespace NodeSet

/-- On the way up are a node and all that it lies in, but for the document. -/
theorem mem_upward_iff {n a : Path} (hn : n ≠ []) : a ∈ upward n ↔ a <+: n ∧ a ≠ [] := by
  have hnonempty : (!a.isEmpty) = true ↔ a ≠ [] := by simp
  rw [upward, List.mem_cons, List.mem_filter, Path.mem_ancestors_iff, hnonempty]
  constructor
  · rintro (rfl | ⟨⟨h, -⟩, ha⟩)
    · exact ⟨List.prefix_rfl, hn⟩
    · exact ⟨h, ha⟩
  · rintro ⟨h, ha⟩
    by_cases he : a = n
    · exact .inl he
    · exact .inr ⟨⟨h, he⟩, ha⟩

/-- On the way up each lies around those before. -/
theorem pairwise_upward (n : Path) : (upward n).Pairwise fun a b => b <+: a := by
  refine List.pairwise_cons.2 ⟨fun b hb => ?_, .filter _ ?_⟩
  · exact (Path.mem_ancestors_iff.1 (List.mem_filter.1 hb).1).1
  · rw [Path.ancestors, List.pairwise_reverse, List.pairwise_map]
    exact List.pairwise_lt_range.imp fun h => List.take_prefix_take_left (Nat.le_of_lt h)

/-- What is met first on the way up from a node, among what has been matched. -/
def nearest (matched : List Path) (n : Path) : Option Path :=
  (upward n).find? (matched.contains ·)

theorem mem_of_nearest {matched : List Path} {n a : Path} (h : nearest matched n = some a) :
    a ∈ matched := List.contains_iff_mem.1 (List.find?_some h)

/-- What matches is met at once. -/
theorem nearest_self {matched : List Path} {n : Path} (h : n ∈ matched) :
    nearest matched n = some n :=
  List.find?_cons_of_pos (List.contains_iff_mem.2 h)

/-- What is met first is the innermost. -/
theorem isInnermost_of_nearest {matched : List Path} (hmatched : [] ∉ matched) {n a : Path}
    (hn : n ≠ []) (h : nearest matched n = some a) : IsInnermost matched n a := by
  obtain ⟨-, before, behind, hup, hbefore⟩ := List.find?_eq_some_iff_append.1 h
  have hmem : a ∈ upward n := hup ▸ List.mem_append_right _ List.mem_cons_self
  refine ⟨((mem_upward_iff hn).1 hmem).1, mem_of_nearest h, fun b hb hbn => ?_⟩
  have hb' : b ∈ upward n := (mem_upward_iff hn).2 ⟨hbn, fun he => hmatched (he ▸ hb)⟩
  have hpairwise := pairwise_upward n
  rw [hup] at hb' hpairwise
  rcases List.mem_append.1 hb' with hfront | hback
  · -- What has been passed on the way has not been matched.
    have hpassed := hbefore b hfront
    simp [hb] at hpassed
  · rcases List.mem_cons.1 hback with rfl | hback
    · exact List.prefix_rfl
    · exact (List.pairwise_cons.1 (List.pairwise_append.1 hpairwise).2.1).1 b hback

/-- It is met first just if it is the innermost. -/
theorem nearest_eq_some_iff {matched : List Path} (hmatched : [] ∉ matched) {n a : Path}
    (hn : n ≠ []) : nearest matched n = some a ↔ IsInnermost matched n a := by
  refine ⟨isInnermost_of_nearest hmatched hn, fun h => ?_⟩
  have hup : a ∈ upward n := (mem_upward_iff hn).2 ⟨h.around, fun he => hmatched (he ▸ h.mem)⟩
  have hsome : (nearest matched n).isSome = true :=
    List.find?_isSome.2 ⟨a, hup, List.contains_iff_mem.2 h.mem⟩
  obtain ⟨b, hb⟩ := Option.isSome_iff_exists.1 hsome
  rw [hb, (isInnermost_of_nearest hmatched hn hb).eq h]

/-! ## The search

The selector is evaluated once, for the whole document, and the way up is gone for each node with
that result. A set without nodes is answered without compiling. -/

variable {q r : NodeSet} {d : Document} {s x : Text} {m m' : Memory} {matched : List Path}

/-- What is closest is met first, from each node, among what matches. -/
theorem exists_matching_of_closest (hne : q.nodes ≠ []) (h : (q.closest s).outcome m = .ok r) :
    ∃ matched, (q.matching s).outcome m = .ok matched ∧
      r = q.holding (q.nodes.filterMap (nearest matched)).eraseDups := by
  rw [closest, if_neg (by simpa using hne)] at h
  obtain ⟨matched, hmatched, h⟩ := Query.exists_of_outcome_bind h
  cases h
  exact ⟨matched, hmatched, rfl⟩

/-- The converse, from what matches. -/
theorem outcome_closest (hne : q.nodes ≠ []) (h : (q.matching s).outcome m = .ok matched) :
    (q.closest s).outcome m =
      .ok (q.holding (q.nodes.filterMap (nearest matched)).eraseDups) := by
  rw [closest, if_neg (by simpa using hne), Query.outcome_bind, h]
  rfl

/-- A set without nodes does not look at the selector. -/
theorem outcome_closest_of_nil (hq : q.nodes = []) (s : Text) (m : Memory) :
    (q.closest s).outcome m = .ok (q.holding []) := by
  rw [closest, if_pos (by rw [hq]; rfl)]
  rfl

/-- Of a search only the selector is remembered. -/
theorem cache_after_closest (hne : q.nodes ≠ []) (h : (q.closest s).outcome m = .ok r) :
    ((q.closest s).after m).cache = ((Selector.compile {} s).after m).cache := by
  rw [closest, if_neg (by simpa using hne)] at h ⊢
  obtain ⟨matched, hmatched, -⟩ := Query.exists_of_outcome_bind h
  rw [Query.after_bind, hmatched]
  show ((q.matching s).after m).cache = _
  rw [matching] at hmatched ⊢
  obtain ⟨x, hx, -⟩ := Query.exists_of_outcome_bind hmatched
  rw [Query.after_bind, hx]
  exact q.cache_after_select x none _

theorem nodes_ofNodes_ne_nil {n : Path} (hn : d.isElement n = true) (asXml : Option Bool) :
    (ofNodes d [n] asXml).nodes ≠ [] := by
  rw [(ofNodes_of_isElement hn asXml).2.2]
  exact List.cons_ne_nil n []

/-- Whether an element matches. -/
theorem outcome_matchesAny_ofNodes {n : Path} (hn : d.isElement n = true) (asXml : Option Bool)
    (hx : (Selector.compile {} s).outcome m = .ok x) (h : d.elementsFor none x = .ok matched) :
    ((ofNodes d [n] asXml).matchesAny s).outcome m = .ok (matched.contains n) := by
  obtain ⟨-, hdocument, hnodes⟩ := ofNodes_of_isElement hn asXml
  rw [matchesAny, Query.outcome_bind,
    outcome_filter hdocument (nodes_ofNodes_ne_nil hn asXml) hx h, hnodes]
  show Except.ok (decide (0 < ([n].filter (matched.contains ·)).length)) = _
  rw [List.filter_cons]
  cases matched.contains n <;> rfl

/-- An element that matches by itself is among what matches in the document. -/
theorem mem_of_matchesAny_ofNodes {n : Path} (hn : d.isElement n = true) {asXml : Option Bool}
    (h : ((ofNodes d [n] asXml).matchesAny s).outcome m = .ok true) :
    ∃ x matched, (Selector.compile {} s).outcome m = .ok x ∧
      d.elementsFor none x = .ok matched ∧ n ∈ matched := by
  have hfilter := h
  rw [matchesAny] at hfilter
  obtain ⟨kept, hkept, -⟩ := Query.exists_of_outcome_bind hfilter
  obtain ⟨matched, hmatched, -⟩ := exists_matching_of_filter (nodes_ofNodes_ne_nil hn asXml) hkept
  obtain ⟨x, hx, hselected⟩ := exists_elementsFor_of_matching
    (ofNodes_of_isElement hn asXml).2.1 hmatched
  refine ⟨x, matched, hx, hselected, ?_⟩
  rw [outcome_matchesAny_ofNodes hn asXml hx hselected] at h
  exact List.contains_iff_mem.1 (Except.ok.inj h)

/-- What has been met, without repetitions, is closest to itself. -/
theorem outcome_closest_again (hmatched : (q.matching s).outcome m = .ok matched)
    (h : ∀ a ∈ q.nodes, a ∈ matched) (hdistinct : q.nodes.Nodup) :
    (q.closest s).outcome m = .ok (q.holding q.nodes) := by
  by_cases hne : q.nodes = []
  · rw [outcome_closest_of_nil hne, hne]
  · have hfixed : q.nodes.filterMap (nearest matched) = q.nodes := by
      rw [List.filterMap_congr fun a ha => nearest_self (h a ha), List.filterMap_some]
    rw [outcome_closest hne hmatched, hfixed, List.eraseDups_of_nodup hdistinct]

/-! ## The law

The last part needs the cache: the selector is compiled again, and might fail where the limit is met
anew if its entry were gone. -/

/-- What is closest to the nodes of a set: for each of them the innermost of itself and what it lies
in that the selector matches in the document, each once where it comes first. A node that matches by
itself is among them; and from then on, as long as nothing is forgotten, each of them matches by
itself, and what is closest to them is the same set. -/
theorem nodes_closest (hq : ∀ n ∈ q.nodes, q.document = some d ∧ d.isElement n = true)
    (hm : m.cache.Sound) (h : (q.closest s).outcome m = .ok r) (asXml : Option Bool) :
    (∃ matched, (q.nodes ≠ [] → (q.matching s).outcome m = .ok matched) ∧
      ∃ nearest : Path → Option Path,
        (∀ n ∈ q.nodes, ∀ a, nearest n = some a ↔ IsInnermost matched n a) ∧
        r.nodes = (q.nodes.filterMap nearest).eraseDups) ∧
    (∀ n ∈ q.nodes, ∀ m' : Memory, m'.cache.Sound →
      ((ofNodes d [n] asXml).matchesAny s).outcome m' = .ok true → n ∈ r.nodes) ∧
    ∀ m' : Memory, ((q.closest s).after m).cache.Keeps m'.cache →
      (∀ a ∈ r.nodes, ((ofNodes d [a] asXml).matchesAny s).outcome m' = .ok true) ∧
      (r.closest s).outcome m' = .ok r := by
  -- A set without nodes finds none, whatever the selector is.
  by_cases hne : q.nodes = []
  · rw [outcome_closest_of_nil hne] at h
    cases h
    rw [hne]
    refine ⟨⟨[], nofun, fun _ => none, nofun, rfl⟩, nofun, fun m' _ => ⟨nofun, ?_⟩⟩
    exact outcome_closest_of_nil rfl s m'
  obtain ⟨p, hp⟩ := List.exists_mem_of_ne_nil _ hne
  have hdocument : q.document = some d := (hq p hp).1
  have hnonempty {n : Path} (hn : d.isElement n = true) : n ≠ [] := by
    rintro rfl
    cases hn
  obtain ⟨matched, hmatching, rfl⟩ := exists_matching_of_closest hne h
  obtain ⟨x, hx, hmatched⟩ := exists_elementsFor_of_matching hdocument hmatching
  have helements := isElement_of_elementsFor hmatched
  have hmem {a : Path} : a ∈ (q.nodes.filterMap (nearest matched)).eraseDups ↔
      ∃ n ∈ q.nodes, nearest matched n = some a := by
    rw [List.mem_eraseDups, List.mem_filterMap]
  have hmet {a : Path} (ha : a ∈ (q.nodes.filterMap (nearest matched)).eraseDups) :
      a ∈ matched := by
    obtain ⟨n, -, ha⟩ := hmem.1 ha
    exact mem_of_nearest ha
  refine ⟨⟨matched, fun _ => hmatching, nearest matched, fun n hn a => ?_, rfl⟩,
    fun n hn m' hm' htrue => ?_, fun m' hkeeps => ?_⟩
  · exact nearest_eq_some_iff (fun hroot => hnonempty (helements _ hroot) rfl)
      (hnonempty (hq n hn).2)
  · -- Any sound memory gives the selector the same expression, which matches the same.
    obtain ⟨x', matched', hx', hmatched', hmem'⟩ := mem_of_matchesAny_ofNodes (hq n hn).2 htrue
    obtain ⟨p, hp, rfl⟩ := Selector.exists_pattern_of_outcome hm hx
    obtain rfl := Selector.eq_xpath_of_outcome hp hm' hx'
    cases hmatched.symm.trans hmatched'
    exact hmem.2 ⟨n, hn, nearest_self hmem'⟩
  · -- With the entry of the selector kept, it is compiled to the same expression again.
    rw [cache_after_closest hne h] at hkeeps
    have hagain := Selector.outcome_compile_again rfl hm hx hkeeps
    have hrematched := (outcome_matching hdocument hagain).trans hmatched
    refine ⟨fun a ha => ?_,
      outcome_closest_again hrematched (fun _ => hmet) (List.nodup_eraseDups _)⟩
    rw [outcome_matchesAny_ofNodes (helements a (hmet ha)) asXml hagain hmatched,
      List.contains_iff_mem.2 (hmet ha)]

def inRows : NodeSet :=
  { document := some rows, nodes := [[0, 1, 0, 1], [0, 1], [0], [0, 0, 0]] }

/-- The second row is met twice, and there is no row around the root. -/
theorem nodes_closest_rows :
    (∀ n ∈ inRows.nodes, inRows.document = some rows ∧ rows.isElement n = true) ∧
    (inRows.closest ['x']).outcome {} = .ok (inRows.holding [[0, 1], [0, 0]]) ∧
    ((inRows.holding [[0, 1], [0, 0]]).closest ['x']).outcome ((inRows.closest ['x']).after {}) =
      .ok (inRows.holding [[0, 1], [0, 0]]) := by
  have hq : ∀ n ∈ inRows.nodes, inRows.document = some rows ∧ rows.isElement n = true := by decide
  have hx : rows.Selects ['x'] [.start none (.mk ['x'] [] [])] [[0, 0], [0, 1]] := by
    decide +kernel
  have hclosest : (inRows.closest ['x']).outcome {} = .ok (inRows.holding [[0, 1], [0, 0]]) := by
    rw [outcome_closest (List.cons_ne_nil _ _)
      (by rw [outcome_matching rfl (hx.outcome Cache.sound_empty), hx.elementsFor])]
    decide
  obtain ⟨-, -, hagain⟩ := nodes_closest hq Cache.sound_empty hclosest none
  exact ⟨hq, hclosest, (hagain _ (.refl _)).2⟩

end NodeSet

end TreeQuery
