import TreeQuery.Proofs.Condition.Reading
import TreeQuery.Proofs.Condition.Star
import TreeQuery.Proofs.NodeSet.Stepwise

/-!
# What a selector does not match

The elements that `:not` leaves over are compared with those that are left when what the selector
finds is taken from all elements. In `:not` the selector is asked of one element at a time, seen on
its own, as if it were alone in the world. So it comes to the same only if the selector asks of one
element what can be told from that element: no other element in front of it, and no place in a row.

Main statements: `NodeSet.nodes_exclude` and `NodeSet.nodes_exclude_fails`.
-/

namespace TreeQuery

open XPath XPath.Expr

namespace Pattern

variable {c : Chain} {d : Document}

/-! Whether an element passes a chain of one steady element can be told from the element. So the
condition with several chains is the same as none of them passing, and this is what the elements are
filtered by on both sides. -/

/-- A chain that can begin at an element, and asks of one, asks what is steady. -/
theorem Chain.isSteady_last (h : c.asksOfOne = true) (hinside : c.beginsInside = true) :
    c.last.isSteady = true := by
  obtain ⟨e, rfl, hcounts⟩ := c.exists_of_asksOfOne h
  rw [beginsInside, Bool.and_eq_true] at hinside
  exact e.isSteady_of_not_counts hcounts (by simpa [isUnscoped] using hinside.1)

/-- None of some steady elements is passed. -/
theorem truth_not_passes (hd : d.IsTree) {cs : List Chain}
    (h : ∀ c ∈ cs, c.asksOfOne = true ∧ c.last.isSteady = true) :
    Truth d (Condition.not cs).expr fun p => !cs.any (·.last.passes d p) := by
  -- The chains are single elements, each of which is asked for by its own test.
  have hall : List.Forall₂ (Truth d) (selfExprs cs) (cs.map fun c => c.last.passes d) := by
    induction cs with
    | nil => exact .nil
    | cons c r ih =>
      rw [List.forall_mem_cons] at h
      refine .cons ?_ (ih h.2)
      obtain ⟨e, rfl, -⟩ := c.exists_of_asksOfOne h.1.1
      exact e.truth_passes hd h.1.2
  refine (truth_not (truth_anyOf hall)).congr fun p _ => ?_
  rw [List.any_map]
  rfl

end Pattern

namespace Document

variable {d : Document} {ps : List Path}

/-- What `:not` leaves over: the elements that pass none of the chains. All chains can begin at an
element then, and so they are steady if those that can ask of one element. -/
theorem eq_filter_of_not (hd : d.IsTree) {p : Pattern} (hne : p ≠ [])
    (hharmless : ∀ c ∈ p, c.Everywhere Pattern.Element.IsHarmless)
    (hone : ∀ c ∈ p, c.beginsInside = true → c.asksOfOne = true)
    (h : d.elementsFor none (Pattern.xpath [.start none (.mk ['*'] [] [.not p])]) = .ok ps) :
    (∀ c ∈ p, c.asksOfOne = true ∧ c.last.isSteady = true) ∧
      ps = d.elements.filter fun q => !p.any (·.last.passes d q) := by
  have hchains := Pattern.chainsEverywhere_iff.2 hharmless
  obtain ⟨hread, rfl⟩ := eq_filter_of_star hd (c := .not p) hne hchains rfl h
  have hsteady : ∀ c ∈ p, c.asksOfOne = true ∧ c.last.isSteady = true := by
    intro c hc
    have hinside := (Pattern.begins_of_not hchains hread c hc).2
    exact ⟨hone c hc hinside, c.isSteady_last (hone c hc hinside) hinside⟩
  refine ⟨hsteady, List.filter_congr fun q hq => ?_⟩
  exact truthAt_of_truth (Pattern.truth_not_passes hd hsteady) (mem_elements_iff.1 hq)

/-- The star alone selects all elements. -/
theorem eq_elements_of_star (hd : d.IsTree)
    (h : d.elementsFor none (Pattern.xpath [.start none (.mk ['*'] [] [])]) = .ok ps) :
    ps = d.elements := by
  have helement : (Pattern.Element.mk ['*'] [] []).IsHarmless := ⟨.inl rfl, nofun, nofun⟩
  have hchain : (Pattern.Chain.start none (.mk ['*'] [] [])).Everywhere
      Pattern.Element.IsHarmless := ⟨helement, trivial⟩
  obtain ⟨-, rfl⟩ := eq_filter_of_elementsFor hd (List.cons_ne_nil _ _)
    (List.forall_mem_singleton.2 hchain) (List.forall_mem_singleton.2 ⟨rfl, rfl⟩) h
  exact List.filter_eq_self.2 fun q _ => rfl

end Document

/-! ## Sets

Both sides are computed for a set as it has been loaded. On the left the star with the condition is
evaluated, on the right the star and then the selector; the two may be compiled with different
caches, and the selector is not compiled at all if there are no elements. Once all expressions are
those of patterns, what is found is a filter of the elements of the document on both sides. -/

namespace NodeSet

/-- What `:not` leaves over is what is left when the matches are taken from all elements. This is
said of a set as it has been loaded, where both can be evaluated, and of a selector whose
parentheses are balanced, whose tags and texts bring no sign of their own into the expression, and
of which trimming takes nothing that belongs to a token; and in which each alternative, if it can
begin at an element at all, is one compound, without a combinator in front, that counts nothing. -/
theorem nodes_exclude {q : NodeSet} (hq : q.IsFresh) {s : Text} (hs : Selector.IsBalanced s)
    (hharmless : Selector.Everywhere Layout.IsHarmless s)
    (htrim : 1 < (Selector.alternatives s).length ∨ Selector.TrimsSeparators s)
    (hone : ∀ p, Selector.pattern s = .ok p →
      ∀ c ∈ p, c.beginsInside = true → c.asksOfOne = true)
    {m m' : Memory} (hm : m.cache.Sound) (hm' : m'.cache.Sound) {found kept : NodeSet}
    (hfound : (q.find ("*:not(".toList ++ s ++ [')'])).outcome m = .ok found)
    (hkept : (q.find ['*'] >>= (·.exclude s)).outcome m' = .ok kept) :
    found.nodes = kept.nodes := by
  obtain ⟨spans, hs, rfl⟩ := hs
  obtain ⟨all, hall, hkept⟩ := Query.exists_of_outcome_bind hkept
  have hafter := (q.keepsSound_find ['*']) m' hm'
  rcases hq with ⟨asXml, rfl⟩ | ⟨d, asXml, rfl, hd⟩
  · -- Without a document there are no elements.
    obtain ⟨x, hx⟩ := exists_compile_of_find hall
    obtain ⟨y, hy⟩ := exists_compile_of_find hfound
    rw [outcome_find_empty, hx] at hall
    rw [outcome_find_empty, hy] at hfound
    cases hall
    cases hfound
    cases hkept
    rfl
  · have hstar : Selector.pattern ['*'] = .ok [.start none (.mk ['*'] [] [])] :=
      Written.pattern_print ⟨.start none (.tagged .any []), []⟩
    obtain ⟨x, ps, hx, hps, hnodes⟩ := exists_elementsFor_of_find hall
    obtain rfl := Selector.eq_xpath_of_outcome hstar hm' hx
    obtain rfl := Document.eq_elements_of_star hd hps
    obtain ⟨y, qs, hy, hqs, rfl⟩ := exists_elementsFor_of_find hfound
    have hdocument : all.document = some d := by rw [eq_holding_of_find hall]; rfl
    -- Nothing is compiled for an empty set, so that this case is apart.
    by_cases hne : d.elements = []
    · have hnone : found.nodes = [] := List.eq_nil_iff_forall_not_mem.2 fun r hr => by
        have := Document.mem_elements_iff.2 (isElement_of_elementsFor hqs r hr)
        rw [hne] at this
        cases this
      rw [hnone, nodes_exclude_of_nil (hnodes.trans hne) hkept]
    · obtain ⟨matched, hmatched, hkept⟩ := exists_matching_of_exclude (hnodes ▸ hne) hkept
      obtain ⟨z, hz, hmatched⟩ := exists_elementsFor_of_matching hdocument hmatched
      obtain ⟨p, hp, rfl⟩ := Selector.exists_pattern_of_outcome hafter hz
      obtain rfl := Selector.eq_xpath_of_outcome (Selector.pattern_not hs hp htrim) hm hy
      have helements : ∀ c ∈ p, c.Everywhere Pattern.Element.IsHarmless :=
        Selector.everywhere_pattern (fun _ _ _ _ hread hl => hl.element hread) hharmless hp
      obtain ⟨hsteady, hleft⟩ :=
        Document.eq_filter_of_not hd (Selector.ne_nil_of_pattern hp) helements (hone p hp) hqs
      obtain ⟨-, hmatched⟩ := Document.eq_filter_of_elementsFor hd
        (Selector.ne_nil_of_pattern hp) helements hsteady hmatched
      -- Both sides are filters of all elements now, by what passes the pattern.
      rw [hkept, hnodes, hleft, hmatched]
      refine List.filter_congr fun r hr => ?_
      rw [Document.contains_filter_elements hr]

/-! ## Samples

Each failure takes away one of the hypotheses. The selectors are evaluated by the patterns of their
expressions, which for an escaped tag or text is not the pattern of the selector. -/

/-- That a selector with balanced parentheses has these elements found in a document with `:not`,
and those left over when its matches are taken from all elements. -/
def Leaves (d : Document) (s : Text) (found kept : List Path) : Prop :=
  Selector.IsBalanced s ∧
    ((ofDocument d true).find ("*:not(".toList ++ s ++ [')'])).outcome {} =
      .ok ((ofDocument d true).holding found) ∧
    ((ofDocument d true).find ['*'] >>= (·.exclude s)).outcome {} =
      .ok ((ofDocument d true).holding kept)

/-- What three expressions select says what is left over in both ways. -/
theorem Leaves.of_selects {d : Document} {s : Text} (hs : Selector.IsBalanced s)
    {x y z : Pattern} {found matched kept : List Path}
    (hall : d.Selects ['*'] z d.elements)
    (hx : d.Selects ("*:not(".toList ++ s ++ [')']) x found) (hy : d.Selects s y matched)
    (hkept : d.elements ≠ [] ∧ d.elements.filter (!matched.contains ·) = kept) :
    Leaves d s found kept := by
  obtain ⟨hne, rfl⟩ := hkept
  refine ⟨hs, ?_, ?_⟩
  · rw [outcome_find rfl rfl, hx.outcome Cache.sound_empty]
    simp only [hx.elementsFor]
    rfl
  · rw [Query.outcome_bind, outcome_find rfl rfl, hall.outcome Cache.sound_empty]
    simp only [hall.elementsFor, Except.map]
    refine outcome_exclude rfl hne (hy.outcome ?_) hy.elementsFor
    exact keepsSound_find _ _ _ Cache.sound_empty

def linkedC (k : Option Combinator) (cs : List Pattern.Condition) : Pattern.Chain :=
  .link (Pattern.onlyB cs) k (.mk ['c'] [] cs)

def allBut (c : Pattern.Chain) : Pattern := [.start none (.mk ['*'] [] [.not [c]])]

/-- The list without its items. -/
theorem nodes_exclude_items : (ofDocument Written.list true).IsFresh ∧
    Selector.IsBalanced "li".toList ∧ Selector.Everywhere Layout.IsHarmless "li".toList ∧
    Selector.TrimsSeparators "li".toList ∧
    (∀ p, Selector.pattern "li".toList = .ok p →
      ∀ c ∈ p, c.beginsInside = true → c.asksOfOne = true) ∧
    ∃ found kept, ((ofDocument Written.list true).find "*:not(li)".toList).outcome {} = .ok found ∧
      ((ofDocument Written.list true).find ['*'] >>= (·.exclude "li".toList)).outcome {} = .ok kept ∧
      found.nodes = kept.nodes ∧ kept.nodes = [[0]] := by
  have htree : Written.list.IsTree := Document.isTree_of_isProper (by decide)
  have hfresh : (ofDocument Written.list true).IsFresh := .inr ⟨_, _, rfl, htree⟩
  have hs : Selector.IsBalanced "li".toList := Selector.isBalanced_of_all rfl
  have hharmless : Selector.Everywhere Layout.IsHarmless "li".toList :=
    Written.everywhere_items.mono fun _ => Layout.isHarmless_of_isPlain
  have htrim : Selector.TrimsSeparators "li".toList := ⟨[], [], rfl, nofun, .inl rfl⟩
  have hone (p : Pattern) (hp : Selector.pattern "li".toList = .ok p) (c : Pattern.Chain)
      (hc : c ∈ p) (_ : c.beginsInside = true) : c.asksOfOne = true := by
    cases Except.ok.inj (hp.symm.trans Written.items.pattern_print)
    obtain rfl := List.mem_singleton.1 hc
    rfl
  have hall : Written.list.Selects ['*'] [.start none (.mk ['*'] [] [])] Written.list.elements := by
    decide +kernel
  have hx : Written.list.Selects "*:not(li)".toList (allBut (.start none (.mk "li".toList [] [])))
      [[0]] := by decide +kernel
  have hp : Written.list.Selects "li".toList [.start none (.mk "li".toList [] [])]
      [[0, 0], [0, 1]] := by decide +kernel
  obtain ⟨-, hfound, hkept⟩ : Leaves Written.list "li".toList [[0]] [[0]] :=
    .of_selects hs hall hx hp (by decide)
  exact ⟨hfresh, hs, hharmless, htrim, hone, _, _, hfound, hkept,
    nodes_exclude hfresh hs hharmless (.inr htrim) hone Cache.sound_empty Cache.sound_empty hfound
      hkept, rfl⟩

/-- The document `<r><b>t<c class="k">t</c></b><b/></r>`. -/
def nested : Document where
  content := .cons (.element ⟨[], [], "r".toList⟩ [] [])
    (.cons (.element ⟨[], [], "b".toList⟩ [] [])
      (.cons (.text "t".toList) .nil
        (.cons (.element ⟨[], [], "c".toList⟩ [] [⟨⟨[], [], "class".toList⟩, "k".toList, false⟩])
          (.cons (.text "t".toList) .nil .nil) .nil))
      (.cons (.element ⟨[], [], "b".toList⟩ [] []) .nil .nil)) .nil

/-- What one element cannot tell: what is in front of it, which place it has among what a step comes
to, or that it is to be the root. Moreover trimming can take from a name, and a tag or a text with
escapes can go on with a step of its own. -/
theorem nodes_exclude_fails :
    Leaves nested "b c".toList [[0], [0, 0, 1], [0, 1]] [[0], [0, 0], [0, 1]] ∧
    Leaves nested "b:odd".toList [[0], [0, 0], [0, 0, 1], [0, 1]] [[0], [0, 0], [0, 0, 1]] ∧
    Leaves nested "b:even".toList [[0], [0, 0, 1]] [[0], [0, 0, 1], [0, 1]] ∧
    Leaves nested "> b".toList [[0], [0, 0, 1]] [[0], [0, 0], [0, 0, 1], [0, 1]] ∧
    Leaves nested ".k\u00a0".toList [[0], [0, 0], [0, 1]] [[0], [0, 0], [0, 0, 1], [0, 1]] ∧
    Leaves nested (Span.escape "b/c".toList) [[0], [0, 0, 1], [0, 1]] [[0], [0, 0], [0, 1]] ∧
    Leaves nested ("b:contains(".toList ++ Span.escape "t')]]/c[text()[contains(.,'t".toList ++ [')'])
      [[0], [0, 0, 1], [0, 1]] [[0], [0, 0], [0, 1]] := by
  have hall : nested.Selects ['*'] [.start none (.mk ['*'] [] [])] nested.elements := by
    decide +kernel
  -- Each expression is that of some plain pattern, even if not of that of the selector.
  refine ⟨?_, ?_, ?_, ?_, ?_, ?_, ?_⟩
  · have hx : nested.Selects "*:not(b c)".toList (allBut (linkedC none []))
        [[0], [0, 0, 1], [0, 1]] := by decide +kernel
    have hy : nested.Selects "b c".toList [linkedC none []] [[0, 0, 1]] := by decide +kernel
    exact .of_selects (Selector.isBalanced_of_all rfl) hall hx hy (by decide)
  · have hx : nested.Selects "*:not(b:odd)".toList (allBut (Pattern.onlyB [.static .odd]))
        [[0], [0, 0], [0, 0, 1], [0, 1]] := by decide +kernel
    have hy : nested.Selects "b:odd".toList [Pattern.onlyB [.static .odd]] [[0, 1]] := by
      decide +kernel
    exact .of_selects (Selector.isBalanced_of_all rfl) hall hx hy (by decide)
  · have hx : nested.Selects "*:not(b:even)".toList (allBut (Pattern.onlyB [.static .even]))
        [[0], [0, 0, 1]] := by decide +kernel
    have hy : nested.Selects "b:even".toList [Pattern.onlyB [.static .even]] [[0, 0]] := by
      decide +kernel
    exact .of_selects (Selector.isBalanced_of_all rfl) hall hx hy (by decide)
  · have hx : nested.Selects "*:not(> b)".toList (allBut (Pattern.onlyB [])) [[0], [0, 0, 1]] := by
      decide +kernel
    have hy : nested.Selects "> b".toList [.start (some .child) (.mk ['b'] [] [])] [] := by
      decide +kernel
    exact .of_selects (Selector.isBalanced_of_all rfl) hall hx hy (by decide)
  · have hx : nested.Selects "*:not(.k\u00a0)".toList (allBut (Pattern.onlyClass ['k']))
        [[0], [0, 0], [0, 1]] := by decide +kernel
    have hy : nested.Selects ".k\u00a0".toList [Pattern.onlyClass "k\u00a0".toList] [] := by
      decide +kernel
    exact .of_selects (Selector.isBalanced_of_all rfl) hall hx hy (by decide)
  · have hx : nested.Selects ("*:not(".toList ++ Span.escape "b/c".toList ++ [')'])
        (allBut (linkedC (some .child) [])) [[0], [0, 0, 1], [0, 1]] := by decide +kernel
    have hy : nested.Selects (Span.escape "b/c".toList) [linkedC (some .child) []]
        [[0, 0, 1]] := by decide +kernel
    exact .of_selects (Selector.isBalanced_escape _) hall hx hy (by decide)
  · have hx : nested.Selects ("*:not(".toList ++ ("b:contains(".toList ++
          Span.escape "t')]]/c[text()[contains(.,'t".toList ++ [')']) ++ [')'])
        (allBut (linkedC (some .child) [.contains ['t']])) [[0], [0, 0, 1], [0, 1]] := by
      decide +kernel
    have hy : nested.Selects ("b:contains(".toList ++
          Span.escape "t')]]/c[text()[contains(.,'t".toList ++ [')'])
        [linkedC (some .child) [.contains ['t']]] [[0, 0, 1]] := by decide +kernel
    have hs := (Selector.isBalanced_escape "t')]]/c[text()[contains(.,'t".toList).argument
      (s := "b:contains".toList) rfl
    exact .of_selects hs hall hx hy (by decide)

end NodeSet

end TreeQuery
