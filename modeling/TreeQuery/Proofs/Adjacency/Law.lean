import TreeQuery.Proofs.Adjacency.Reading
import TreeQuery.Proofs.Adjacency.Steps
import TreeQuery.Proofs.Matching.Finding

/-!
# Finding the next sibling

What a selector finds that is followed by a plus sign and a compound: of what the compound finds,
the elements whose nearest preceding element the selector finds. So it is where the step to the next
sibling is exact. Behind a selector whose last link is a next sibling itself, that an element is
found by the selector is not asked, and too much is found.

Main statements: `NodeSet.nodes_find_plus` and `NodeSet.nodes_find_plus_fails`.
-/

namespace TreeQuery

open XPath XPath.Expr Pattern

namespace Selector

/-- A selector that is compiled with a sound cache is compiled to the expression of its pattern. -/
theorem eq_xpath_of_outcome {settings : Settings} {s x : Text} {p : Pattern} {m : Memory}
    (hp : pattern s = .ok p) (hm : m.cache.Sound)
    (h : (compile settings s).outcome m = .ok x) : x = p.xpath := by
  obtain ⟨p', hp', rfl⟩ := exists_pattern_of_outcome hm h
  rw [Except.ok.inj (hp.symm.trans hp')]

end Selector

namespace Pattern

/-- The beginning of the path of a chain, which is that of all chains that go on from it. -/
theorem Chain.exists_beginning (d : Document) (f : Focus) (c : Chain) :
    ∃ start a ms, a.IsOnward ∧ eval d f start = some (.nodes ms) ∧
      c.pathExpr = (c.stretch start a).expr ∧
        ∀ o e, (link c o e).pathExpr = ((link c o e).stretch start a).expr := by
  have hopening (o : Option Combinator) (e : Element) : (link c o e).opening = c.opening := rfl
  simp only [pathExpr, hopening]
  cases c.opening with
  | none =>
    have hroot : eval d f .root = some (.nodes [.tree []]) := rfl
    exact ⟨descend .root, .child, _, .inl rfl, eval_descend hroot, rfl, fun _ _ => rfl⟩
  | some k =>
    cases k with
    | child => exact ⟨.root, .child, _, .inl rfl, rfl, rfl, fun _ _ => rfl⟩
    | sibling | adjacent =>
      exact ⟨.root, .followingSibling, _, .inr rfl, rfl, rfl, fun _ _ => rfl⟩

theorem isPlain_of_adjacent {c : Chain} {e : Element}
    (h : isPlain [.link c (some .adjacent) e] = true) :
    isPlain [c] = true ∧ isPlain [.start none e] = true := by
  have h : ((Chain.link c (some .adjacent) e).isPlain &&
    (Chain.link c (some .adjacent) e).beginsAtRoot && true) = true := h
  rw [Bool.and_true, Bool.and_eq_true, Chain.isPlain_link, Bool.and_eq_true] at h
  have hc : isPlain [c] = (c.isPlain && c.beginsAtRoot && true) := rfl
  have he : isPlain [.start none e] = (e.isPlain && true && true) := rfl
  rw [hc, he, h.1.1, h.1.2]
  exact ⟨by rw [Bool.true_and, Bool.and_true]; exact h.2, rfl⟩

end Pattern

namespace NodeSet

variable {q : NodeSet} {d : Document} {s t : Text} {m : Memory}

/-! ## What is found

Three searches are compared: by the selector, by the compound, and by the two with a plus sign
between them. Each of them may use a cache of its own, as long as it is sound; what is found does
not depend on it. All three expressions are evaluated at the root element, and the two that begin
with the chain begin with the same steps, so that what the first search finds is what the last step
of the third one starts from. -/

/-- What is found for a selector with a plain pattern is what the expression of the pattern comes
to. -/
theorem exists_nodes_of_find (hw : q.isWhole = true) (hq : q.document = some d) {p : Pattern}
    (hp : Selector.pattern s = .ok p) (hplain : Pattern.isPlain p = true) (hm : m.cache.Sound)
    {r : NodeSet} (h : (q.find s).outcome m = .ok r) :
    ∃ ns, eval d ⟨.tree (d.root?.getD []), 0, 0⟩ (Pattern.expr p) = some (.nodes ns) ∧
      r.nodes = ns.filterMap (·.element? d) := by
  rw [outcome_find hw hq] at h
  cases hx : (Selector.compile {} s).outcome m with
  | error e =>
    rw [hx] at h
    cases h
  | ok x =>
    obtain rfl := Selector.eq_xpath_of_outcome hp hm hx
    rw [hx] at h
    obtain ⟨ps, hps, rfl⟩ := Except.map_eq_ok h
    obtain ⟨-, e, ns, he, hns, rfl⟩ := Document.elementsFor_eq_ok_iff.1 hps
    cases he.symm.trans (Pattern.ofText?_xpath hplain)
    exact ⟨ns, hns, rfl⟩

/-- Behind a selector that leads to a chain, a next sibling is found as the chain leads to it. -/
theorem nodes_of_find_plus (hw : q.isWhole = true) (hq : q.document = some d) (hd : d.IsTree)
    {c : Chain} {e : Element} (hs : Selector.pattern s = .ok [c])
    (ht : Selector.pattern t = .ok [.start none e]) {u : Text}
    (hu : Selector.pattern u = .ok [.link c (some .adjacent) e])
    (hplain : Pattern.isPlain [.link c (some .adjacent) e] = true) (he : e.isSteady = true)
    {m m' m'' : Memory} (hm : m.cache.Sound) (hm' : m'.cache.Sound) (hm'' : m''.cache.Sound)
    {first second both : NodeSet} (hfirst : (q.find s).outcome m = .ok first)
    (hsecond : (q.find t).outcome m' = .ok second) (hboth : (q.find u).outcome m'' = .ok both) :
    both.nodes = second.nodes.filter (c.leadsNext d first.nodes) ∧
      (c.keepsNext = true → ∀ p ∈ second.nodes,
        c.leadsNext d first.nodes p = d.isNextTo first.nodes p) := by
  have hparts := Pattern.isPlain_of_adjacent hplain
  obtain ⟨ns, hns, hfirst⟩ := exists_nodes_of_find hw hq hs hparts.1 hm hfirst
  obtain ⟨ks, hks, hsecond⟩ := exists_nodes_of_find hw hq ht hparts.2 hm' hsecond
  obtain ⟨ls, hls, hboth⟩ := exists_nodes_of_find hw hq hu hplain hm'' hboth
  obtain ⟨start, a, ms, ha, hstart, hpath, hlink⟩ :=
    Chain.exists_beginning d ⟨.tree (d.root?.getD []), 0, 0⟩ c
  have hexpr (c : Chain) : Pattern.expr [c] = c.pathExpr := rfl
  rw [hexpr] at hns hks hls
  rw [hpath] at hns
  rw [hlink] at hls
  -- The compound alone finds all elements that pass it.
  have hall : Finds d ⟨.tree (d.root?.getD []), 0, 0⟩ (Chain.start none e).pathExpr
      (e.passes d) :=
    (e.finds_passing hd he (reaches_anywhere hd) (by decide) .nil).congr fun p _ => by simp
  -- The third search goes on from the nodes of the first.
  have hnext := Chain.finds_adjacent hd he hstart ha hns
  rw [Finds, hls] at hnext
  rw [Finds, hks] at hall
  cases hnext
  cases hall
  rw [hboth, hsecond, hfirst, Document.filterMap_nodesWhere, Document.filterMap_nodesWhere]
  refine ⟨(List.filter_filter ..).symm, fun hc p hp => ?_⟩
  have helement := Document.mem_elements_iff.1 (List.mem_of_mem_filter hp)
  exact Chain.leadsNext_of_keepsNext hd hc hstart ha hns helement

/-- What a selector with a next sibling behind it finds, and when these are the elements next to
those that the selector finds: if the two are told alike in what the compound finds, and so behind
every chain that keeps its next siblings. -/
theorem nodes_find_plus (hw : q.isWhole = true) (hq : q.document = some d) (hd : d.IsTree)
    {c : Chain} {e : Element} (hs : Selector.pattern s = .ok [c])
    (hopen : Pieces.openAfter 0 s = some 0) (ht : Selector.pattern t = .ok [.start none e])
    (hone : (Selector.tokens t).length = 1)
    (hplain : Pattern.isPlain [.link c (some .adjacent) e] = true) (he : e.isSteady = true)
    {m m' m'' : Memory} (hm : m.cache.Sound) (hm' : m'.cache.Sound) (hm'' : m''.cache.Sound)
    {first second both : NodeSet} (hfirst : (q.find s).outcome m = .ok first)
    (hsecond : (q.find t).outcome m' = .ok second)
    (hboth : (q.find (s ++ " + ".toList ++ t)).outcome m'' = .ok both) :
    both.nodes = second.nodes.filter (c.leadsNext d first.nodes) ∧
      (both.nodes = second.nodes.filter (d.isNextTo first.nodes) ↔
        ∀ p ∈ second.nodes, c.leadsNext d first.nodes p = d.isNextTo first.nodes p) ∧
      (c.keepsNext = true → both.nodes = second.nodes.filter (d.isNextTo first.nodes)) := by
  obtain ⟨hnodes, hkeeps⟩ := nodes_of_find_plus hw hq hd hs ht (Selector.pattern_plus hs hopen ht hone)
    hplain he hm hm' hm'' hfirst hsecond hboth
  refine ⟨hnodes, ?_, fun hc => ?_⟩
  · rw [hnodes]
    constructor
    · intro h p hp
      have hiff := congrArg (p ∈ ·) h
      simp only [List.mem_filter, hp, true_and, eq_iff_iff] at hiff
      exact Bool.eq_iff_iff.2 hiff
    · exact fun h => List.filter_congr h
  · rw [hnodes]
    exact List.filter_congr (hkeeps hc)

/-! ## Samples

Both the law and its failures are shown on one row of siblings. To find something for a selector
that is written out takes its pattern and the value of the expression of that pattern, which is
computed; that the text of the expression is read as that expression is proved for all plain
patterns, and is not computed again. -/

/-- The document `<r><x/><a/><a/><b/></r>`. -/
def row : Document where
  content := .cons (.element ⟨[], [], "r".toList⟩ [] [])
    (.cons (.element ⟨[], [], "x".toList⟩ [] []) .nil
      (.cons (.element ⟨[], [], "a".toList⟩ [] []) .nil
        (.cons (.element ⟨[], [], "a".toList⟩ [] []) .nil
          (.cons (.element ⟨[], [], "b".toList⟩ [] []) .nil .nil)))) .nil

/-- That a selector finds the elements in some places of the row. -/
def RowFinds (selector : Text) (places : List Path) : Prop :=
  ((ofDocument row true).find selector).outcome {} = .ok ((ofDocument row true).holding places)

def tagged (c : Char) (h : Text.isBlank c = false) (items : List Written.Item) :
    Written.Compound :=
  .tagged (.named ⟨[c], nofun, by simpa using h⟩) items

def justX : Written.Chain := .start none (tagged 'x' rfl [])

def besideX : Written.Chain := .link justX (some .adjacent) (tagged 'a' rfl [])

def everySecond : Written.Chain := .start none (tagged 'a' rfl [.static .odd])

/-- What the expression of a chain selects is what its selector finds. -/
theorem rowFinds (c : Written.Chain) (hs : Written.print ⟨c, []⟩ = s)
    (hplain : Pattern.isPlain [c.pattern] = true) (hn : Pattern.nesting [c.pattern] ≤ 32)
    (hx : (Pattern.xpath [c.pattern]).all isCompatible = true) {places : List Path}
    (h : ((Pattern.expr [c.pattern]).select? row (.tree [0])).map
      (·.filterMap (·.element? row)) = some places) : RowFinds s places := by
  have hp : Selector.pattern s = .ok [c.pattern] := hs ▸ Written.pattern_print ⟨c, []⟩
  have hcompile : (Selector.compile {} s).outcome {} = .ok (Pattern.xpath [c.pattern]) :=
    Selector.outcome_of_nesting_le hp (Int.ofNat_le.2 hn) Cache.sound_empty
  rw [RowFinds, outcome_find rfl rfl, hcompile]
  simp only [Document.elementsFor_of_isPlain hplain hx h]
  rfl

/-- The `a` next to `x`. -/
theorem nodes_find_plus_besideX : RowFinds ['x'] [[0, 0]] ∧ RowFinds ['a'] [[0, 1], [0, 2]] ∧
    RowFinds "x + a".toList [[0, 1]] ∧
    [[0, 1]] = [[0, 1], [0, 2]].filter (row.isNextTo [[0, 0]]) := by
  have hx : RowFinds ['x'] [[0, 0]] :=
    rowFinds justX (by decide) (by decide) (by decide) (by decide) (by decide)
  have ha : RowFinds ['a'] [[0, 1], [0, 2]] :=
    rowFinds (.start none (tagged 'a' rfl [])) (by decide) (by decide) (by decide) (by decide)
      (by decide)
  have hboth : RowFinds "x + a".toList [[0, 1]] :=
    rowFinds besideX (by decide) (by decide) (by decide) (by decide) (by decide)
  have hs : Selector.pattern ['x'] = .ok [justX.pattern] := Written.pattern_print ⟨justX, []⟩
  have ht : Selector.pattern ['a'] = .ok [.start none (.mk ['a'] [] [])] :=
    Written.pattern_print ⟨.start none (tagged 'a' rfl []), []⟩
  have htree : row.IsTree := Document.isTree_of_isProper (by decide)
  exact ⟨hx, ha, hboth, (nodes_find_plus rfl rfl htree hs rfl ht (by decide) (by decide) (by decide)
    Cache.sound_empty Cache.sound_empty Cache.sound_empty hx ha hboth).2.2 (by decide)⟩

/-- Behind `x + a` there is found what is next to an `a` that is not next to `x`; behind `a:odd`
there is not found what is next to the second `a`. -/
theorem nodes_find_plus_fails :
    (RowFinds "x + a".toList [[0, 1]] ∧ RowFinds ['b'] [[0, 3]] ∧
      RowFinds "x + a + b".toList [[0, 3]] ∧ row.isNextTo [[0, 1]] [0, 3] = false) ∧
    RowFinds "a:odd".toList [[0, 2]] ∧ RowFinds "a:odd + b".toList [] ∧
      row.isNextTo [[0, 2]] [0, 3] = true := by
  refine ⟨⟨?_, ?_, ?_, by decide⟩, ?_, ?_, by decide⟩
  · exact rowFinds besideX (by decide) (by decide) (by decide) (by decide) (by decide)
  · exact rowFinds (.start none (tagged 'b' rfl [])) (by decide) (by decide) (by decide)
      (by decide) (by decide)
  · exact rowFinds (.link besideX (some .adjacent) (tagged 'b' rfl [])) (by decide) (by decide)
      (by decide) (by decide) (by decide)
  · exact rowFinds everySecond (by decide) (by decide) (by decide) (by decide) (by decide)
  · exact rowFinds (.link everySecond (some .adjacent) (tagged 'b' rfl [])) (by decide)
      (by decide) (by decide) (by decide) (by decide)

end NodeSet

end TreeQuery
