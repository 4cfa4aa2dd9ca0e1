import TreeQuery.Proofs.Adjacency.Law
import TreeQuery.Proofs.NodeSet.Below
import TreeQuery.Proofs.Picking.Suffix
import TreeQuery.Proofs.Tree.Loaded

/-!
# The first and the last of what is found

`:first` and `:last` behind a selector select from all that the selector finds, as a set of nodes
selects its first or last node. Their path is that of the selector in parentheses, with the position
behind it; a set in parentheses is counted in document order, in which the found nodes are listed.

What the selector finds are elements. That has to be known here: if its path came to other nodes as
well, the first node could be one that is dropped. A path that is read at all is the one that the
selector stands for, or else it comes to no set of nodes.

Main statement: `NodeSet.first_and_last_suffix`.
-/

namespace TreeQuery

open XPath XPath.Expr

/-! ## Positions in a set

A number as a predicate keeps the node at that position, and `last()` is the number of the nodes.
The nodes are gone through with their position, so that the induction is on what is left of them,
and the size stays. -/

/-- What is left of a result by a pseudo-class that selects from it. -/
def StaticPseudo.chosen {α : Type} : StaticPseudo → List α → List α
  | first, l => l.take 1
  | last, l => l.drop (l.length - 1)
  | _, l => l

theorem StaticPseudo.map_chosen {α β : Type} (p : StaticPseudo) (f : α → β) (l : List α) :
    p.chosen (l.map f) = (p.chosen l).map f := by
  cases p with
  | first => exact List.map_take.symm
  | last =>
    show (l.map f).drop ((l.map f).length - 1) = _
    rw [List.length_map]
    exact List.map_drop.symm
  | _ => rfl

theorem StaticPseudo.chosen_subset {α : Type} (p : StaticPseudo) {l : List α} :
    p.chosen l ⊆ l := by
  cases p with
  | first => exact List.take_subset 1 l
  | last => exact List.drop_subset _ l
  | _ => exact List.Subset.refl l

section

variable {d : Document}

/-- The last of some nodes is the one whose position is their number. -/
theorem keep_last {size position : Nat} {ns : List Node} (h : size + 1 = position + ns.length) :
    keep (fun f => eval d f StaticPseudo.last.expr) size position ns =
      some (ns.drop (ns.length - 1)) := by
  induction ns generalizing position with
  | nil => rfl
  | cons n r ih =>
    have hvalue : eval d ⟨n, position, size⟩ StaticPseudo.last.expr =
        some (.number (.whole size)) := rfl
    have hlength : size + 1 = position + 1 + r.length := by
      rw [List.length_cons] at h
      omega
    have hrest := ih hlength
    have hholds : Value.holdsAt position (.number (.whole size)) = decide (size = position) := by
      rw [Value.holdsAt, Number.beq, Bool.eq_iff_iff, beq_iff_eq, decide_eq_true_eq]
      exact Int.ofNat_inj
    rw [keep, hvalue, hrest]
    simp only [hholds]
    cases r with
    | nil =>
      have : size = position := by simpa using h
      simp [this]
    | cons m r =>
      have : size ≠ position := by
        intro he
        simp only [List.length_cons] at h
        omega
      simp [this]

/-- The predicate of a pseudo-class that selects from the whole result, on a set of nodes. -/
theorem keep_chosen {p : StaticPseudo} (hp : p.isResultScoped = true) (ns : List Node) :
    keep (fun f => eval d f p.expr) ns.length 1 ns = some (p.chosen ns) := by
  cases p with
  | first => exact keep_first ns.length ns
  | last => exact keep_last (Nat.add_comm _ _)
  | _ => cases hp

end

/-! ## Paths in parentheses

Parentheses make a filter of the path, and a position behind them counts all that the path comes to;
without them it would count for each step. The path has to be the one that the selector stands for.
What else its text may be read as is an operation on numbers or truth values, which no position can
be asked of. -/

/-- The text of a pseudo-class behind an expression in parentheses is read as its predicate. -/
theorem ofText?_applyTo {p : StaticPseudo} (hp : p.isResultScoped = true) {t : Text} {e : Expr}
    (h : Reads true 0 t e) : Expr.ofText? (p.applyTo t) = some (.filter e p.expr) := by
  have hshape : p.applyTo t = '(' :: (t ++ [')']) ++ p.predicate := by
    rw [StaticPseudo.applyTo, if_pos hp]
    rfl
  have hleads : Leads ('(' :: (t ++ [')']) ++ p.predicate) (.set (.filter e p.expr)) :=
    h.enclosed.given p.readsPredicate
  rw [hshape]
  exact (hleads.path.operand (Nat.zero_le 6)).ofText?

/-- The pseudo-class adds no characters without a place in markup. -/
theorem all_isCompatible_applyTo {p : StaticPseudo} {t : Text} (h : t.all isCompatible = true) :
    (p.applyTo t).all isCompatible = true := by
  have hpredicate : p.predicate.all isCompatible = true := by cases p <;> decide
  rw [StaticPseudo.applyTo]
  split
  · simp only [List.cons_append, List.all_cons, List.all_append, h, hpredicate]
    decide
  · rw [List.all_append, h, hpredicate]
    rfl

/-- The path of a chain comes to elements. -/
theorem Pattern.Chain.sameElements_pathExpr {d : Document} (hd : d.IsTree) (c : Pattern.Chain)
    (f : Focus) : SameElements d f f c.pathExpr := by
  obtain ⟨start, a, ms, ha, hstart, hpath, -⟩ := c.exists_beginning d f
  rw [hpath]
  exact (c.settled hd ⟨ms, hstart, hstart⟩ ha.ne_attributes).elements

namespace Document

variable {d : Document}

/-- Nodes that are elements are given by their paths. -/
theorem eq_map_tree {ns : List Node} (h : ∀ n ∈ ns, ∃ p, n = .tree p ∧ d.isElement p = true) :
    ns = (ns.filterMap (·.element? d)).map .tree := by
  induction ns with
  | nil => rfl
  | cons n r ih =>
    rw [List.forall_mem_cons] at h
    obtain ⟨⟨p, rfl, hp⟩, hr⟩ := h
    have helement : Node.element? d (.tree p) = some p := if_pos hp
    rw [List.filterMap_cons, helement, List.map_cons, ← ih hr]

theorem filterMap_map_tree {ps : List Path} (h : ∀ p ∈ ps, d.isElement p = true) :
    (ps.map Node.tree).filterMap (·.element? d) = ps := by
  induction ps with
  | nil => rfl
  | cons p r ih =>
    rw [List.forall_mem_cons] at h
    have helement : Node.element? d (.tree p) = some p := if_pos h.1
    rw [List.map_cons, List.filterMap_cons, helement, ih h.2]

/-- If the path of a chain selects elements in a document, then with a pseudo-class that selects
from the whole result it selects of these elements the one that is asked for. -/
theorem elementsFor_applyTo (hd : d.IsTree) {p : StaticPseudo} (hp : p.isResultScoped = true)
    {c : Pattern.Chain} (hc : c.Everywhere Pattern.Element.IsHarmless) {ps : List Path}
    (h : d.elementsFor none c.xpath = .ok ps) :
    d.elementsFor none (p.applyTo c.xpath) = .ok (p.chosen ps) := by
  have helements := isElement_of_elementsFor h
  obtain ⟨hx, e, ns, he, hns, rfl⟩ := elementsFor_eq_ok_iff.1 h
  -- A path that is not read as it is meant comes to no nodes.
  have hread : c.IsRead ∧ c.beginsAtRoot = true := by
    apply (c.isRead_of_ofText? hc he).resolve_right
    intro hoperation
    have hnone := nodes?_eval_of_isOperation hoperation d ⟨.tree (d.root?.getD []), 0, 0⟩
    have hnodes : eval d ⟨.tree (d.root?.getD []), 0, 0⟩ e = some (.nodes ns) := hns
    rw [hnodes] at hnone
    cases hnone
  have hreads : Reads true 0 c.xpath c.pathExpr :=
    (c.readsPath hread.1 hread.2).operand (Nat.zero_le 6)
  cases he.symm.trans hreads.ofText?
  have hall : ∀ n ∈ ns, ∃ q, n = .tree q ∧ d.isElement q = true := by
    obtain ⟨ms, hms, heval, -⟩ := c.sameElements_pathExpr hd ⟨.tree (d.root?.getD []), 0, 0⟩
    cases hns.symm.trans heval
    exact hms
  have hchosen : eval d ⟨.tree (d.root?.getD []), 0, 0⟩ (.filter c.pathExpr p.expr) =
      some (.nodes (p.chosen ns)) := by
    have hnodes : eval d ⟨.tree (d.root?.getD []), 0, 0⟩ c.pathExpr = some (.nodes ns) := hns
    rw [eval, hnodes]
    simp only [Option.bind_some, Value.nodes?, keep_chosen hp, Option.map_some]
  apply elementsFor_eq_ok_iff.2
  refine ⟨all_isCompatible_applyTo hx, _, _, ofText?_applyTo hp hreads, hchosen, ?_⟩
  -- The nodes are elements, so that choosing among them is choosing among the elements.
  have hsub : ∀ q ∈ p.chosen (ns.filterMap (·.element? d)), d.isElement q = true := by
    intro q hq
    exact helements q (p.chosen_subset hq)
  have hmap := p.map_chosen Node.tree (ns.filterMap (·.element? d))
  rw [← eq_map_tree hall] at hmap
  rw [hmap]
  exact filterMap_map_tree hsub

end Document

/-! ## Sets

In a set that stands for a document the search is one evaluation from the root. A set below the root
would evaluate the path at each node, and the pseudo-class would choose one node for each. -/

namespace NodeSet

variable {q r : NodeSet} {s : Text} {m : Memory}

/-- Without a document a selector is compiled and finds nothing. -/
theorem outcome_find_empty (asXml : Option Bool) (s : Text) (m : Memory) :
    ((empty asXml).find s).outcome m =
      match (Selector.compile {} s).outcome m with
      | .ok _ => .ok ((empty asXml).holding [])
      | .error e => .error (.selector e) := by
  rw [find, Query.outcome_bind, Query.outcome_compile]
  cases (Selector.compile {} s).outcome m with
  | error e => rfl
  | ok x => rfl

theorem nodes_first_holding (q : NodeSet) (ps : List Path) :
    (q.holding ps).first.nodes = StaticPseudo.first.chosen ps := by
  show (ps[0]?).toList = ps.take 1
  rw [List.take_one, List.head?_eq_getElem?]

theorem nodes_last_holding (q : NodeSet) (ps : List Path) :
    (q.holding ps).last.nodes = StaticPseudo.last.chosen ps := by
  show ((q.holding ps).at? (-1)).toList = ps.drop (ps.length - 1)
  have hlength : (q.holding ps).length = ps.length := rfl
  rw [at?, if_neg (by decide), hlength]
  cases ps with
  | nil => rfl
  | cons p r =>
    have hindex : ((-1 : Int) + ((p :: r).length : Nat)).toNat = (p :: r).length - 1 := by omega
    rw [if_pos (by rw [List.length_cons]; omega), hindex]
    show ((p :: r)[(p :: r).length - 1]?).toList = _
    rw [← List.getLast?_eq_getElem?, List.drop_length_sub_one (by simp),
      List.getLast?_eq_getLast_of_ne_nil (by simp)]
    rfl

/-- A set that has been loaded finds, for a selector with `:first` or `:last` behind it, the one
that the pseudo-class chooses of what it finds for the selector. -/
theorem exists_find_suffix (hq : q.IsFresh) (hs : Selector.EndsInCompound s)
    (hplain : Selector.Everywhere Layout.IsPlain s) (hm : m.cache.Sound)
    (hcomplete : m.cache.Complete) (h : (q.find s).outcome m = .ok r) {p : StaticPseudo}
    (hp : p.isResultScoped = true) :
    ∃ found r', r = q.holding found ∧ (q.find (s ++ Selector.suffix p)).outcome m = .ok r' ∧
      r'.nodes = p.chosen found := by
  have hbehind {x : Text} (hx : (Selector.compile {} s).outcome m = .ok x) :
      (Selector.compile {} (s ++ Selector.suffix p)).outcome m = .ok (p.applyTo x) :=
    Selector.outcome_behind hs hm hcomplete (.inl (by decide)) hx p
  rcases hq with ⟨asXml, rfl⟩ | ⟨d, asXml, rfl, hd⟩
  · -- Nothing is found where there is no document.
    rw [outcome_find_empty] at h
    cases hx : (Selector.compile {} s).outcome m with
    | error e =>
      rw [hx] at h
      cases h
    | ok x =>
      rw [hx] at h
      cases h
      refine ⟨[], (empty asXml).holding [], rfl, ?_, ?_⟩
      · rw [outcome_find_empty, hbehind hx]
      · cases p <;> rfl
  · obtain ⟨x, ps, hx, hps, rfl⟩ := exists_elementsFor_of_find h
    have hr := eq_holding_of_find h
    obtain ⟨c, hc, hpattern, rfl⟩ := Selector.chain_of_outcome hs.single hm hx
    have hharmless : c.Everywhere Pattern.Element.IsHarmless := by
      apply Selector.everywhere_chain _ hplain (by rw [hs.single]; decide) hc
      intro nested relation l e hread hl
      exact hl.isHarmless hread
    have hchosen := Document.elementsFor_applyTo hd hp hharmless hps
    refine ⟨_, (ofDocument d asXml).holding (p.chosen r.nodes), hr, ?_, rfl⟩
    rw [outcome_find rfl rfl, hbehind hx]
    simp only [hchosen]
    rfl

/-- `:first` and `:last` behind a selector of one group that ends in a compound. Whatever the
selector is compiled to is put into parentheses, with the position behind them; the limit counts
only where the selector itself is answered from the cache. And in a set as it has been loaded, a
selector without escapes in tags and without apostrophes in texts, if it finds anything at all,
finds with the pseudo-class behind it just the first or the last of that. -/
theorem first_and_last_suffix (hs : Selector.EndsInCompound s) (hm : m.cache.Sound)
    (hcomplete : m.cache.Complete) :
    (∀ (settings : Settings) (x : Text), 1 ≤ settings.maxDepth ∨ m.cache.get? s = none →
      (Selector.compile settings s).outcome m = .ok x →
      (Selector.compile settings (s ++ ":first".toList)).outcome m =
        .ok ('(' :: x ++ ")[1]".toList) ∧
      (Selector.compile settings (s ++ ":last".toList)).outcome m =
        .ok ('(' :: x ++ ")[last()]".toList)) ∧
    ∀ q : NodeSet, q.IsFresh → Selector.Everywhere Layout.IsPlain s → ∀ r,
      (q.find s).outcome m = .ok r →
      (∃ r', (q.find (s ++ ":first".toList)).outcome m = .ok r' ∧ r'.nodes = r.first.nodes) ∧
      ∃ r', (q.find (s ++ ":last".toList)).outcome m = .ok r' ∧ r'.nodes = r.last.nodes := by
  have happlied (p : StaticPseudo) (x : Text) (hp : p.isResultScoped = true) :
      p.applyTo x = '(' :: x ++ (')' :: p.predicate) := by
    rw [StaticPseudo.applyTo, if_pos hp]
    simp
  refine ⟨fun settings x hlevels hx => ⟨?_, ?_⟩, fun q hq hplain r h => ⟨?_, ?_⟩⟩
  · have := Selector.outcome_behind hs hm hcomplete hlevels hx .first
    rwa [happlied _ _ rfl] at this
  · have := Selector.outcome_behind hs hm hcomplete hlevels hx .last
    rwa [happlied _ _ rfl] at this
  · obtain ⟨found, r', rfl, hr', hnodes⟩ :=
      exists_find_suffix hq hs hplain hm hcomplete h (p := .first) rfl
    exact ⟨r', hr', by rw [hnodes, nodes_first_holding]⟩
  · obtain ⟨found, r', rfl, hr', hnodes⟩ :=
      exists_find_suffix hq hs hplain hm hcomplete h (p := .last) rfl
    exact ⟨r', hr', by rw [hnodes, nodes_last_holding]⟩

end NodeSet

/-! ## A sample -/

namespace Written

def items : Written where
  first := .start none (.tagged (.named ⟨['l', 'i'], nofun, eq_false_of_all (by decide)⟩) [])
  others := []

theorem everywhere_items : Selector.Everywhere Layout.IsPlain items.print := by
  have hprint : items.print = items.first.print := by decide
  rw [hprint]
  refine Selector.everywhere_of_layouts (not_holds_print (by decide)) fun token htoken => ?_
  have htokens : token ∈ ["li".toList] := htoken
  obtain rfl := List.mem_singleton.1 htokens
  exact ⟨⟨⟨"li".toList.map Span.plain, .inr (by decide)⟩, []⟩, rfl, ⟨by decide, by simp⟩⟩

theorem endsInCompound_items : Selector.EndsInCompound items.print where
  single := by decide
  compound := by
    intro token h
    have h : some "li".toList = some token := h
    obtain rfl := Option.some.inj h
    decide
  unseparated := by
    rintro ⟨spans, c, h, hc⟩
    have h : some [Span.plain 'l', Span.plain 'i'] = some (spans ++ [Span.plain c]) := h
    have hlast := congrArg (fun o : Option (List Span) => o.bind List.getLast?) h
    simp only [Option.bind_some, List.getLast?_concat] at hlast
    obtain rfl : 'i' = c := by simpa [Span.plain] using hlast
    exact absurd hc (by decide)

end Written

namespace NodeSet

/-- The first and the last of two items. -/
theorem first_and_last_suffix_items :
    Selector.EndsInCompound Written.items.print ∧
    (ofDocument Written.list true).IsFresh ∧ Selector.Everywhere Layout.IsPlain Written.items.print ∧
    (Selector.compile {} (Written.items.print ++ ":first".toList)).outcome {} =
      .ok "(//li)[1]".toList ∧
    ∃ r, ((ofDocument Written.list true).find Written.items.print).outcome {} = .ok r ∧
      (∃ r', ((ofDocument Written.list true).find (Written.items.print ++ ":first".toList)).outcome {}
        = .ok r' ∧ r'.nodes = r.first.nodes ∧ r'.nodes = [[0, 0]]) ∧
      ∃ r', ((ofDocument Written.list true).find (Written.items.print ++ ":last".toList)).outcome {} =
        .ok r' ∧ r'.nodes = r.last.nodes ∧ r'.nodes = [[0, 1]] := by
  have htree : Written.list.IsTree := Document.isTree_of_isProper (by decide)
  have hfresh : (ofDocument Written.list true).IsFresh := .inr ⟨_, _, rfl, htree⟩
  have hcompile : (Selector.compile {} Written.items.print).outcome {} = .ok "//li".toList :=
    Selector.outcome_of_nesting_le Written.items.pattern_print (by decide) Cache.sound_empty
  have hfound : ((ofDocument Written.list true).find Written.items.print).outcome {} =
      .ok ((ofDocument Written.list true).holding [[0, 0], [0, 1]]) := by
    have hxpath : "//li".toList = Written.items.pattern.xpath := by decide
    rw [outcome_find rfl rfl, hcompile, hxpath]
    simp only [Document.elementsFor_xpath htree (p := Written.items.pattern) (by decide)]
    decide
  obtain ⟨hcompiled, hfinds⟩ := first_and_last_suffix (m := {}) Written.endsInCompound_items
    Cache.sound_empty Cache.complete_empty
  obtain ⟨⟨r, hr, hfirst⟩, r', hr', hlast⟩ :=
    hfinds _ hfresh Written.everywhere_items _ hfound
  exact ⟨Written.endsInCompound_items, hfresh, Written.everywhere_items,
    (hcompiled {} _ (.inl (by decide)) hcompile).1, _, hfound, ⟨r, hr, hfirst, hfirst⟩, r', hr',
    hlast, hlast⟩

end NodeSet

end TreeQuery
