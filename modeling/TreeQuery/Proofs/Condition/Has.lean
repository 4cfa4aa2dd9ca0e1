import TreeQuery.Proofs.Condition.Reading
import TreeQuery.Proofs.Condition.Star
import TreeQuery.Proofs.NodeSet.Stepwise

/-!
# What has something below it

The nodes for which `:has` is true are compared with those below which the selector finds something.
Both ask for what the steps of a chain come to from one element. They differ in the first step:
below the element, all children of what lies there are one step for a search, and everything is one
row for `:has`. Only what counts along the row can tell one from the other. And a chain that begins
among the children does so in `:has` if the text has the child sign and a space in front.

Main statements: `NodeSet.nodes_has` and `NodeSet.nodes_has_fails`.
-/

namespace TreeQuery

open XPath XPath.Expr

namespace XPath.Expr

variable {d : Document} {f : Focus} {start start' : Expr} {a b : Expr} {n : Path}

/-- A step goes on from what it starts from, however that has been come to. -/
theorem eval_step_congr (h : eval d f start = eval d f start') (x : Axis) (t : NodeTest)
    (es : List Expr) : eval d f (.step start x t es) = eval d f (.step start' x t es) := by
  rw [eval, eval, h]

/-- A union comes to something if one of its parts does. -/
theorem truthAt_union (ha : SameElements d ⟨.tree n, 0, 0⟩ ⟨.tree n, 0, 0⟩ a)
    (hb : SameElements d ⟨.tree n, 0, 0⟩ ⟨.tree n, 0, 0⟩ b) :
    SameElements d ⟨.tree n, 0, 0⟩ ⟨.tree n, 0, 0⟩ (.binary .union a b) ∧
      truthAt d (.binary .union a b) n = (truthAt d a n || truthAt d b n) := by
  obtain ⟨ns, hns, hna, -⟩ := ha
  obtain ⟨ms, hms, hmb, -⟩ := hb
  have hunion := eval_union hna hmb
  have hall : ∀ m ∈ ns ++ ms, ∃ p, m = .tree p ∧ d.isElement p = true :=
    List.forall_mem_append.2 ⟨hns, hms⟩
  refine ⟨⟨_, fun m hm => hall m (Node.mem_ordered_iff.1 hm).2, hunion, hunion⟩, ?_⟩
  have hempty : (Node.ordered d (ns ++ ms)).isEmpty = (ns ++ ms).isEmpty := by
    have hmap := Document.eq_map_tree hall
    rw [hmap, isEmpty_ordered fun q hq => ?_, List.isEmpty_map]
    obtain ⟨r, hr, helement⟩ := hall (.tree q) (hmap ▸ List.mem_map_of_mem hq)
    cases hr
    exact helement
  rw [truthAt, truthAt, truthAt, hunion, hna, hmb]
  simp only [Option.map_some, Option.getD_some, Value.toBool, hempty]
  cases ns <;> simp

end XPath.Expr

namespace Pattern

variable {d : Document} {f : Focus} {start start' : Expr} {a a' : Axis} {c : Chain} {e : Element}
  {n : Path}

/-! ## The first step

All steps but the first go from each node on its own, so that what they come to depends on what the
first step has come to, and not on how it was written. It remains to compare the first steps. Below
an element, the children of all nodes at or below it are all nodes below it; but for the predicates
they are many short rows in one case and one long row in the other. For an element that asks for no
place in a row this makes no difference. -/

/-- The steps behind the first see nothing of it but what it has come to. -/
theorem Chain.eval_stretch_congr : ∀ c : Chain, c.isUnscoped = true →
    eval d f (c.first.stretch start a []).expr = eval d f (c.first.stretch start' a' []).expr →
    eval d f (c.stretch start a).expr = eval d f (c.stretch start' a').expr
  | .start _ _, _, h => h
  | .link b o e, hc, h => by
    rw [isUnscoped, Bool.and_eq_true, Bool.not_eq_true'] at hc
    -- All that the first steps have in common is what they come to.
    have hb := b.eval_stretch_congr hc.1 h
    -- The step to the last element takes its predicates wherever it starts from.
    have hstep {s s' : Expr} (hs : eval d f s = eval d f s') (x : Axis) (es : List Expr) :
        eval d f (e.stretch s x es).expr = eval d f (e.stretch s' x es).expr := by
      rw [e.stretch_eq hc.2, e.stretch_eq hc.2]
      exact eval_step_congr hs ..
    cases o with
    | none => exact hstep (eval_step_congr hb ..) ..
    | some o =>
      cases o with
      | child => exact hstep hb ..
      | sibling => exact hstep hb ..
      | adjacent =>
        rw [Chain.stretch_adjacent, Chain.stretch_adjacent,
          isResultScoped_last_of_isUnscoped hc.1, if_neg Bool.false_ne_true,
          if_neg Bool.false_ne_true]
        exact hstep hb ..

/-- No element of an unscoped chain selects from the result, the first one included. -/
theorem Chain.isResultScoped_first_of_isUnscoped : ∀ c : Chain, c.isUnscoped = true →
    c.first.isResultScoped = false
  | .start _ _, h => by simpa [isUnscoped, first] using h
  | .link b _ _, h => b.isResultScoped_first_of_isUnscoped (Bool.and_eq_true_iff.1 h).1

/-- For an element that counts nothing it is the same whether it is looked for among the children of
what is at or below a node, or among all that is below the node. -/
theorem Element.eval_below (hd : d.IsTree) (he : e.isSteady = true) (n : Path) :
    eval d ⟨.tree n, 0, 0⟩ (e.stretch (descend .here) .child []).expr =
      eval d ⟨.tree n, 0, 0⟩ (e.stretch .here .descendant []).expr := by
  -- What is reached by the two steps, and what is reached by the one.
  have hsearch : Reaches d ⟨.tree n, 0, 0⟩ (descend .here) .child fun p =>
      (Path.ancestors p).any fun q => [Node.tree n].contains (.tree q) :=
    reaches_descend hd rfl fun m hm => ⟨n, List.mem_singleton.1 hm⟩
  have hrow : Reaches d ⟨.tree n, 0, 0⟩ .here .descendant (isWithin false n) :=
    reaches_within false n 0 0
  have hsame : Reaches d ⟨.tree n, 0, 0⟩ (descend .here) .child (isWithin false n) := by
    refine hsearch.congr fun p _ => ?_
    rw [Bool.eq_iff_iff]
    simp [isWithin]
  have hfound := e.finds_passing hd he hsame (by decide) .nil
  exact hfound.trans (e.finds_passing hd he hrow (by decide) .nil).symm

/-- What a chain comes to from an element, if it begins anywhere below and its first element counts
nothing. -/
theorem Chain.eval_below (hd : d.IsTree) (hc : c.isUnscoped = true)
    (hcounts : c.first.counts = false) (n : Path) :
    eval d ⟨.tree n, 0, 0⟩ (c.stretch (descend .here) .child).expr =
      eval d ⟨.tree n, 0, 0⟩ (c.stretch .here .descendant).expr := by
  have hfirst := c.first.isSteady_of_not_counts hcounts (c.isResultScoped_first_of_isUnscoped hc)
  exact c.eval_stretch_congr hc (c.first.eval_below hd hfirst n)

/-! ## From one element

A search below an element evaluates a union of paths, a condition an alternative of them. Of the
union it matters only whether it is empty. -/

/-- Unions come to something if one of their parts does. -/
theorem truthAt_unions {e : Expr} {es : List Expr}
    (h : ∀ x ∈ e :: es, SameElements d ⟨.tree n, 0, 0⟩ ⟨.tree n, 0, 0⟩ x) :
    SameElements d ⟨.tree n, 0, 0⟩ ⟨.tree n, 0, 0⟩ (es.foldl (.binary .union) e) ∧
      truthAt d (es.foldl (.binary .union) e) n = (e :: es).any (truthAt d · n) := by
  induction es generalizing e with
  | nil => exact ⟨h e List.mem_cons_self, (Bool.or_false _).symm⟩
  | cons a es ih =>
    rw [List.forall_mem_cons, List.forall_mem_cons] at h
    obtain ⟨hunion, htruth⟩ := truthAt_union h.1 h.2.1
    obtain ⟨hall, hany⟩ := ih (List.forall_mem_cons.2 ⟨hunion, h.2.2⟩)
    refine ⟨hall, hany.trans ?_⟩
    rw [List.any_cons, List.any_cons, List.any_cons, htruth, Bool.or_assoc]

/-- From an element a pattern comes to something if one of its chains does. -/
theorem truthAt_anchoredExpr (hd : d.IsTree) {p : Pattern} (hne : p ≠ []) (n : Path) :
    SameElements d ⟨.tree n, 0, 0⟩ ⟨.tree n, 0, 0⟩ (anchoredExpr p) ∧
      truthAt d (anchoredExpr p) n = p.any (truthAt d ·.anchoredExpr n) := by
  have hchain (c : Chain) := c.sameElements_anchoredExpr hd (sameNodes_here d n 0 0)
  cases p with
  | nil => exact absurd rfl hne
  | cons c r =>
    have hall : ∀ x ∈ (c :: r).map Chain.anchoredExpr,
        SameElements d ⟨.tree n, 0, 0⟩ ⟨.tree n, 0, 0⟩ x :=
      List.forall_mem_map.2 fun b _ => hchain b
    obtain ⟨hsame, hany⟩ := truthAt_unions hall
    refine ⟨hsame, hany.trans ?_⟩
    rw [← List.map_cons, List.any_map]
    rfl

/-! ## From one condition

A chain of a condition and the chain of a pattern are read from the same text, and differ in what
they take from its beginning. The condition only looks for a child sign with a space behind it; the
chain has any combinator. That the two begin alike is asked only of chains that can begin at an
element, because any other keeps the condition from being evaluated at all. -/

def Relative.expr : Relative → Expr
  | .mk direct c => (c.stretch .here (if direct then .child else .descendant)).expr

theorem relativeExprs_eq_map (rs : List Relative) : relativeExprs rs = rs.map Relative.expr := by
  induction rs with
  | nil => rfl
  | cons r rs ih =>
    obtain ⟨direct, c⟩ := r
    rw [List.map_cons, ← ih]
    rfl

/-- The condition is true of an element if one of its chains comes to something. -/
theorem truthAt_has (hd : d.IsTree) (rs : List Relative) (hn : d.isElement n = true) :
    truthAt d (Condition.has rs).expr n = rs.any fun r => truthAt d r.expr n := by
  have hall : List.Forall₂ (Truth d) (relativeExprs rs) ((relativeExprs rs).map (truthAt d)) := by
    rw [List.forall₂_map_right_iff, List.forall₂_same]
    exact steady_relativeExprs hd rs
  refine (truthAt_of_truth (truth_anyOf hall) hn).trans ?_
  rw [relativeExprs_eq_map, List.map_map, List.any_map]
  rfl

/-- A chain comes to the same from an element whether it is looked for or stands in a condition, if
the condition takes it for one that begins among the children where it is one, and the first element
counts nothing where it is not. -/
theorem Chain.truthAt_relative (hd : d.IsTree) {direct : Bool} (hinside : c.beginsInside = true)
    (hdirect : c.opening = some .child → direct = true)
    (hanywhere : c.opening = none → direct = false ∧ c.first.counts = false) (n : Path) :
    truthAt d (Relative.mk direct c).expr n = truthAt d c.anchoredExpr n := by
  rw [beginsInside, Bool.and_eq_true, Bool.or_eq_true, beq_iff_eq, beq_iff_eq] at hinside
  obtain ⟨hunscoped, hnone | hchild⟩ := hinside
  · obtain ⟨rfl, hcounts⟩ := hanywhere hnone
    rw [anchoredExpr, hnone, truthAt, truthAt, c.eval_below hd hunscoped hcounts]
    rfl
  · obtain rfl := hdirect hchild
    rw [anchoredExpr, hchild]
    rfl

/-- That a chain in a condition begins among the children where it does by itself, and that its
first element counts nothing where it begins anywhere below, if it can begin at an element at all.
-/
structure BeginsAlike (c : Chain) (r : Relative) (direct : Bool) : Prop where
  eq_mk : r = .mk direct c
  begins : c.beginsInside = true → (c.opening = some .child → direct = true) ∧
    (c.opening = none → direct = false ∧ c.first.counts = false)

theorem mem_iff_of_alike {p : Pattern} {rs : List Relative}
    (h : List.Forall₂ (fun c r => ∃ direct, BeginsAlike c r direct) p rs) :
    c ∈ p ↔ ∃ direct, .mk direct c ∈ rs := by
  induction h with
  | nil => simp
  | @cons c' r _ _ hr _ ih =>
    obtain ⟨direct, rfl, -⟩ := hr
    rw [List.mem_cons, ih]
    constructor
    · rintro (rfl | ⟨direct', hmem⟩)
      · exact ⟨direct, List.mem_cons_self⟩
      · exact ⟨direct', List.mem_cons_of_mem _ hmem⟩
    · rintro ⟨direct', hmem⟩
      rcases List.mem_cons.1 hmem with heq | hmem
      · cases heq
        exact .inl rfl
      · exact .inr ⟨direct', hmem⟩

/-- Some of the chains of a condition comes to something if some chain of the pattern does. -/
theorem any_relative (hd : d.IsTree) {p : Pattern} {rs : List Relative}
    (h : List.Forall₂ (fun c r => ∃ direct, BeginsAlike c r direct) p rs)
    (hinside : ∀ c ∈ p, c.beginsInside = true) (n : Path) :
    (rs.any fun r => truthAt d r.expr n) = p.any (truthAt d ·.anchoredExpr n) := by
  induction h with
  | nil => rfl
  | cons hr _ ih =>
    rw [List.forall_mem_cons] at hinside
    obtain ⟨direct, rfl, hbegins⟩ := hr
    obtain ⟨hchild, hanywhere⟩ := hbegins hinside.1
    rw [List.any_cons, List.any_cons, ih hinside.2,
      Chain.truthAt_relative hd hinside.1 hchild hanywhere]

end Pattern

namespace Document

variable {d : Document} {n : Path}

/-- Something is found for a pattern below an element if one of its chains comes to something. -/
theorem decide_of_anchorAll (hd : d.IsTree) {p : Pattern} (hne : p ≠ [])
    (hsealed : ∀ c ∈ p, IsSealed c.xpath) (hread : ∀ c ∈ p, c.IsRead) {ps : List Path}
    (h : d.elementsFor (some n) (anchorAll p.xpath) = .ok ps) :
    decide (0 < ps.length) = p.any (truthAt d ·.anchoredExpr n) := by
  obtain ⟨-, e, ns, he, hns, rfl⟩ := elementsFor_eq_ok_iff.1 h
  cases he.symm.trans (Pattern.reads_anchorAll_of_isRead hne hsealed hread).ofText?
  obtain ⟨⟨ms, hms, hm, -⟩, htruth⟩ := Pattern.truthAt_anchoredExpr hd hne n
  have hns : eval d ⟨.tree n, 0, 0⟩ (Pattern.anchoredExpr p) = some (.nodes ns) := hns
  cases hns.symm.trans hm
  have hlength : ns.length = (ns.filterMap (·.element? d)).length := by
    conv_lhs => rw [eq_map_tree hms]
    exact List.length_map _
  rw [← htruth, truthAt, hns, ← hlength]
  cases ns <;> rfl

/-- The star with `:has` selects the elements from which one of the chains comes to something, if it
can be evaluated at all, and then all chains can begin at an element. -/
theorem eq_filter_of_has (hd : d.IsTree) {p : Pattern} {rs : List Pattern.Relative} (hne : p ≠ [])
    (hharmless : ∀ c ∈ p, c.Everywhere Pattern.Element.IsHarmless)
    (halike : List.Forall₂ (fun c r => ∃ direct, Pattern.BeginsAlike c r direct) p rs)
    {ps : List Path}
    (h : d.elementsFor none (Pattern.xpath [.start none (.mk ['*'] [] [.has rs])]) = .ok ps) :
    (∀ c ∈ p, c.IsRead) ∧
      ps = d.elements.filter fun n => p.any (truthAt d ·.anchoredExpr n) := by
  have hsome : rs ≠ [] := by
    rintro rfl
    cases halike
    exact hne rfl
  have hrelatives : Pattern.relativesEverywhere Pattern.Element.IsHarmless rs :=
    Pattern.relativesEverywhere_iff.2 fun direct c hc =>
      hharmless c ((Pattern.mem_iff_of_alike halike).2 ⟨direct, hc⟩)
  obtain ⟨hread, rfl⟩ := eq_filter_of_star hd (c := .has rs) hsome hrelatives rfl h
  have hbegins : ∀ c ∈ p, c.IsRead ∧ c.beginsInside = true := by
    intro c hc
    obtain ⟨direct, hmem⟩ := (Pattern.mem_iff_of_alike halike).1 hc
    exact Pattern.begins_of_has hrelatives hread direct c hmem
  refine ⟨fun c hc => (hbegins c hc).1, List.filter_congr fun n hn => ?_⟩
  rw [Pattern.truthAt_has hd rs (mem_elements_iff.1 hn)]
  exact Pattern.any_relative hd halike (fun c hc => (hbegins c hc).2) n

end Document

namespace Selector

/-- A text with a chain that begins at an element: a space stands behind the child sign in front, if
there is one, and otherwise the first element counts nothing. -/
def BeginsPlainly (g : Text) (c : Pattern.Chain) : Prop :=
  c.beginsInside = true → (c.opening = some .child → ['>', ' '] <+: g) ∧
    (c.opening = none → c.first.counts = false)

theorem beginsAlike_of_chain {g : Text} {c : Pattern.Chain} {r : Pattern.Relative}
    (hc : chain g = .ok c) (hbegins : BeginsPlainly g c)
    (hr : r = .mk (Text.after? ['>', ' '] g).isSome c) :
    Pattern.BeginsAlike c r (Text.after? ['>', ' '] g).isSome where
  eq_mk := hr
  begins hinside := by
    obtain ⟨hchild, hanywhere⟩ := hbegins hinside
    refine ⟨fun h => (Text.isSome_after?_iff ..).2 (hchild h), fun h => ⟨?_, hanywhere h⟩⟩
    by_contra hdirect
    exact opening_of_child hc ((Bool.not_eq_false _).mp hdirect) h

end Selector

/-! ## Sets

Searching below a node compiles the selector and makes it begin at the node; filtering compiles the
star with the condition and evaluates it once. Both are carried back to the pattern of the selector,
and there to the chains and the node. Between the nodes the cache may grow, but stays sound. -/

namespace NodeSet

section

variable {q r : NodeSet} {d : Document} {n : Path} {s : Text} {m : Memory}

/-- What is found below one node is what the anchored expression selects there. -/
theorem exists_elementsFor_of_find_single (hq : q.document = some d)
    (h : ((q.holding [n]).find s).outcome m = .ok r) :
    ∃ x ps, (Selector.compile {} s).outcome m = .ok x ∧
      d.elementsFor (some n) (anchorAll x) = .ok ps ∧ r = q.holding ps := by
  have hfind := outcome_find_single (q := q.holding [n]) rfl hq rfl s m
  rw [hfind] at h
  cases hx : (Selector.compile {} s).outcome m with
  | error e =>
    rw [hx] at h
    cases h
  | ok x =>
    rw [hx] at h
    obtain ⟨ps, hps, rfl⟩ := Except.map_eq_ok h
    exact ⟨x, ps, rfl, hps, rfl⟩

theorem outcome_has_single {x : Text} {found : List Path} (hq : q.document = some d)
    (hn : q.nodes = [n]) (hx : (Selector.compile {} s).outcome m = .ok x)
    (h : d.elementsFor (some n) (anchorAll x) = .ok found) :
    (q.has s).outcome m = .ok (q.holding (if 0 < found.length then [n] else [])) := by
  have hfind := outcome_find_single (q := q.holding [n]) rfl hq rfl s m
  rw [hx] at hfind
  simp only [h] at hfind
  rw [has, Query.outcome_bind, hn, havingAmong, Query.outcome_bind, hfind]
  rfl

end

/-- The nodes for which `:has` is true are those below which something is found. This is said of any
set of elements of a document, where both can be evaluated, and of a selector whose parentheses are
balanced, whose tags and texts bring no sign of their own into the expression, and of which trimming
takes nothing that belongs to a token; and in which each alternative, if it can begin at an element
at all, has a space behind the child sign that opens it, or is not opened by one and counts nothing
in its first compound. -/
theorem nodes_has {q : NodeSet} {d : Document} (hq : q.document = some d) (hd : d.IsTree)
    (helements : ∀ n ∈ q.nodes, d.isElement n = true) {s : Text} (hs : Selector.IsBalanced s)
    (hharmless : Selector.Everywhere Layout.IsHarmless s)
    (htrim : 1 < (Selector.alternatives s).length ∨ Selector.TrimsSeparators s)
    (hbegins : ∀ g ∈ Selector.alternatives s, ∀ c, Selector.chain g = .ok c →
      Selector.BeginsPlainly g c)
    {m m' : Memory} (hm : m.cache.Sound) (hm' : m'.cache.Sound) {having kept : NodeSet}
    (hhaving : (q.has s).outcome m = .ok having)
    (hkept : (q.filter ("*:has(".toList ++ s ++ [')'])).outcome m' = .ok kept) :
    having.nodes = kept.nodes := by
  obtain ⟨spans, hs, rfl⟩ := hs
  obtain ⟨ps, hps, hhaving⟩ := Query.exists_of_outcome_bind hhaving
  cases hhaving
  show ps = kept.nodes
  cases hnodes : q.nodes with
  | nil =>
    rw [hnodes] at hps
    cases hps
    rw [nodes_filter_of_nil hnodes hkept]
  | cons n r =>
    have hne : q.nodes ≠ [] := by simp [hnodes]
    obtain ⟨matched, hmatched, hkept⟩ := exists_matching_of_filter hne hkept
    obtain ⟨y, hy, hmatched⟩ := exists_elementsFor_of_matching hq hmatched
    -- The selector has been compiled for the first of the nodes.
    obtain ⟨x, hx⟩ : ∃ x, (Selector.compile {} (Span.source spans)).outcome m = .ok x := by
      rw [hnodes, havingAmong] at hps
      obtain ⟨first, hfirst, -⟩ := Query.exists_of_outcome_bind hps
      exact exists_compile_of_find hfirst
    obtain ⟨p, hp, rfl⟩ := Selector.exists_pattern_of_outcome hm hx
    obtain ⟨rs, hstarred, hrs⟩ := Selector.exists_pattern_has hs hp htrim
    obtain rfl := Selector.eq_xpath_of_outcome hstarred hm' hy
    have halike : List.Forall₂ (fun c r => ∃ direct, Pattern.BeginsAlike c r direct) p rs := by
      refine hrs.imp fun c r => ?_
      rintro ⟨g, hg, hc, hr⟩
      exact ⟨_, Selector.beginsAlike_of_chain hc (hbegins g hg c hc) hr⟩
    have hlayouts : ∀ c ∈ p, c.Everywhere Pattern.Element.IsHarmless :=
      Selector.everywhere_pattern (fun _ _ _ _ hread hl => hl.element hread) hharmless hp
    have hsealed : ∀ c ∈ p, IsSealed c.xpath := fun c hc => c.isSealed_xpath
      (Selector.everywhere_pattern (fun _ _ _ _ hread hl => hl.isSealed hread) hharmless hp c hc)
    have hpattern := Selector.ne_nil_of_pattern hp
    obtain ⟨hread, hmatched⟩ :=
      Document.eq_filter_of_has hd hpattern hlayouts halike hmatched
    -- From here on the cache does not matter: for each node the same expression is evaluated.
    have hfinds : ∀ n ∈ q.nodes, ∀ m : Memory, m.cache.Sound → ∀ r,
        ((q.holding [n]).find (Span.source spans)).outcome m = .ok r →
          decide (0 < r.length) = p.any (truthAt d ·.anchoredExpr n) := by
      intro n _ m hm r hr
      obtain ⟨x, ps, hx, hps, rfl⟩ := exists_elementsFor_of_find_single hq hr
      obtain rfl := Selector.eq_xpath_of_outcome hp hm hx
      exact Document.decide_of_anchorAll hd hpattern hsealed hread hps
    rw [eq_filter_of_havingAmong hfinds hm hps, hkept, hmatched]
    refine List.filter_congr fun n hn => ?_
    rw [Document.contains_filter_elements (Document.mem_elements_iff.2 (helements n hn))]

/-! ## Samples

A sample has to evaluate two expressions in a document. The expressions are those of plain patterns,
also where the selector is not plain: what an escaped name brings into an expression is then a
condition of the pattern. -/

/-- That a selector with balanced parentheses leaves these nodes of the set of a document that has
been loaded if it is looked for below them, and those if it stands in `:has`. -/
def LeavesHaving (d : Document) (s : Text) (having kept : List Path) : Prop :=
  Selector.IsBalanced s ∧
    ((ofDocument d true).has s).outcome {} = .ok ((ofDocument d true).holding having) ∧
    ((ofDocument d true).filter ("*:has(".toList ++ s ++ [')'])).outcome {} =
      .ok ((ofDocument d true).holding kept)

/-- That the expression of a selector is that of a plain pattern, and what is selected with it below
the root. -/
def SelectsBelow (d : Document) (s : Text) (p : Pattern) (ps : List Path) : Prop :=
  (Selector.compile {} s).outcome {} = .ok p.xpath ∧ Pattern.isPlain p = true ∧
    p.xpath.all isCompatible = true ∧ ((Pattern.anchoredExpr p).select? d
      (.tree (d.root?.getD []))).map (·.filterMap (·.element? d)) = some ps

instance (d : Document) (s : Text) (p : Pattern) (ps : List Path) :
    Decidable (SelectsBelow d s p ps) := inferInstanceAs (Decidable (_ ∧ _))

theorem LeavesHaving.of_selects {d : Document} {s : Text} (hs : Selector.IsBalanced s) {n : Path}
    (hn : d.root? = some n) {x y : Pattern} {found matched having kept : List Path}
    (hx : SelectsBelow d s x found) (hy : d.Selects ("*:has(".toList ++ s ++ [')']) y matched)
    (hhaving : (if 0 < found.length then [n] else []) = having)
    (hkept : [n].filter (matched.contains ·) = kept) : LeavesHaving d s having kept := by
  obtain ⟨hcompile, hplain, hcompatible, hselect⟩ := hx
  have hnodes : (ofDocument d true).nodes = [n] := congrArg Option.toList hn
  have hbelow : d.elementsFor (some n) (anchorAll x.xpath) = .ok found := by
    rw [hn, Option.getD_some] at hselect
    exact Document.elementsFor_of_select? (Pattern.all_isCompatible_anchorAll hcompatible)
      (Pattern.reads_anchorAll hplain).ofText? hselect
  refine ⟨hs, ?_, ?_⟩
  · rw [← hhaving]
    exact outcome_has_single rfl hnodes hcompile hbelow
  · rw [← hkept, ← hnodes]
    exact outcome_filter rfl (by simp [hnodes]) (hy.outcome Cache.sound_empty) hy.elementsFor

def allWith (c : Pattern.Chain) : Pattern := [.start none (.mk ['*'] [] [.has [.mk false c]])]

/-- The list has items. -/
theorem nodes_has_items : Written.list.IsTree ∧
    (∀ n ∈ (ofDocument Written.list true).nodes, Written.list.isElement n = true) ∧
    Selector.IsBalanced "li".toList ∧ Selector.Everywhere Layout.IsHarmless "li".toList ∧
    Selector.TrimsSeparators "li".toList ∧
    (∀ g ∈ Selector.alternatives "li".toList, ∀ c, Selector.chain g = .ok c →
      Selector.BeginsPlainly g c) ∧
    ∃ having kept, ((ofDocument Written.list true).has "li".toList).outcome {} = .ok having ∧
      ((ofDocument Written.list true).filter "*:has(li)".toList).outcome {} = .ok kept ∧
      having.nodes = kept.nodes ∧ kept.nodes = [[0]] := by
  have htree : Written.list.IsTree := Document.isTree_of_isProper (by decide)
  have helements : ∀ n ∈ (ofDocument Written.list true).nodes,
      Written.list.isElement n = true := by decide
  have hs : Selector.IsBalanced "li".toList := Selector.isBalanced_of_all rfl
  have hharmless : Selector.Everywhere Layout.IsHarmless "li".toList :=
    Written.everywhere_items.mono fun _ => Layout.isHarmless_of_isPlain
  have htrim : Selector.TrimsSeparators "li".toList := ⟨[], [], rfl, nofun, .inl rfl⟩
  have hbegins : ∀ g ∈ Selector.alternatives "li".toList, ∀ c, Selector.chain g = .ok c →
      Selector.BeginsPlainly g c := by
    intro g hg c hc _
    have halternatives : Selector.alternatives "li".toList = ["li".toList] := by decide
    rw [halternatives, List.mem_singleton] at hg
    subst hg
    have hchain : Selector.chain "li".toList = .ok (.start none (.mk "li".toList [] [])) := by rfl
    cases Except.ok.inj (hc.symm.trans hchain)
    exact ⟨nofun, fun _ => rfl⟩
  have hx : SelectsBelow Written.list "li".toList [.start none (.mk "li".toList [] [])]
      [[0, 0], [0, 1]] := by decide +kernel
  have hy : Written.list.Selects "*:has(li)".toList
      (allWith (.start none (.mk "li".toList [] []))) [[0]] := by decide +kernel
  obtain ⟨-, hhaving, hkept⟩ : LeavesHaving Written.list "li".toList [[0]] [[0]] :=
    .of_selects hs rfl hx hy rfl rfl
  exact ⟨htree, helements, hs, hharmless, htrim, hbegins, _, _, hhaving, hkept,
    nodes_has rfl htree helements hs hharmless (.inr htrim) hbegins Cache.sound_empty
      Cache.sound_empty hhaving hkept, rfl⟩

/-- The document `<e><x><b class="k">t</b></x><x><b>t<c/></b></x></e>`. -/
def rows : Document where
  content := .cons (.element ⟨[], [], "e".toList⟩ [] [])
    (.cons (.element ⟨[], [], "x".toList⟩ [] [])
      (.cons (.element ⟨[], [], "b".toList⟩ [] [⟨⟨[], [], "class".toList⟩, "k".toList, false⟩])
        (.cons (.text "t".toList) .nil .nil) .nil)
      (.cons (.element ⟨[], [], "x".toList⟩ [] [])
        (.cons (.element ⟨[], [], "b".toList⟩ [] [])
          (.cons (.text "t".toList) .nil
            (.cons (.element ⟨[], [], "c".toList⟩ [] []) .nil .nil)) .nil) .nil)) .nil

/-- A place in a row is counted otherwise in `:has`, and a child sign without a space behind it is
not seen there. Moreover trimming can take from a name, and a tag or a text with escapes can bring
in a condition of its own. -/
theorem nodes_has_fails :
    LeavesHaving rows "b:odd".toList [] [[0]] ∧
    LeavesHaving rows "b:even c".toList [[0]] [] ∧
    LeavesHaving rows ">\tb".toList [] [[0]] ∧
    LeavesHaving rows ".k\u00a0".toList [] [[0]] ∧
    LeavesHaving rows (Span.escape "b[position() mod 2 = 0]".toList) [] [[0]] ∧
    LeavesHaving rows ("b:contains(".toList ++
      Span.escape "t')]][position() mod 2 = 0][text()[contains(.,'t".toList ++ [')']) [] [[0]] := by
  refine ⟨?_, ?_, ?_, ?_, ?_, ?_⟩
  · have hx : SelectsBelow rows "b:odd".toList [Pattern.onlyB [.static .odd]] [] := by
      decide +kernel
    have hy : rows.Selects "*:has(b:odd)".toList (allWith (Pattern.onlyB [.static .odd])) [[0]] := by
      decide +kernel
    exact .of_selects (Selector.isBalanced_of_all rfl) rfl hx hy rfl rfl
  · have hx : SelectsBelow rows "b:even c".toList
        [.link (Pattern.onlyB [.static .even]) none (.mk ['c'] [] [])] [[0, 1, 0, 1]] := by
      decide +kernel
    have hy : rows.Selects "*:has(b:even c)".toList
        (allWith (.link (Pattern.onlyB [.static .even]) none (.mk ['c'] [] []))) [[0, 1]] := by
      decide +kernel
    exact .of_selects (Selector.isBalanced_of_all rfl) rfl hx hy rfl rfl
  · have hx : SelectsBelow rows ">\tb".toList [.start (some .child) (.mk ['b'] [] [])] [] := by
      decide +kernel
    have hy : rows.Selects "*:has(>\tb)".toList (allWith (Pattern.onlyB []))
        [[0], [0, 0], [0, 1]] := by decide +kernel
    exact .of_selects (Selector.isBalanced_of_all rfl) rfl hx hy rfl rfl
  · have hx : SelectsBelow rows ".k\u00a0".toList [Pattern.onlyClass "k\u00a0".toList] [] := by
      decide +kernel
    have hy : rows.Selects "*:has(.k\u00a0)".toList (allWith (Pattern.onlyClass ['k']))
        [[0], [0, 0]] := by decide +kernel
    exact .of_selects (Selector.isBalanced_of_all rfl) rfl hx hy rfl rfl
  · have hx : SelectsBelow rows (Span.escape "b[position() mod 2 = 0]".toList)
        [Pattern.onlyB [.static .odd]] [] := by decide +kernel
    have hy : rows.Selects
        ("*:has(".toList ++ Span.escape "b[position() mod 2 = 0]".toList ++ [')'])
        (allWith (Pattern.onlyB [.static .odd])) [[0]] := by decide +kernel
    exact .of_selects (Selector.isBalanced_escape _) rfl hx hy rfl rfl
  · have hx : SelectsBelow rows ("b:contains(".toList ++
          Span.escape "t')]][position() mod 2 = 0][text()[contains(.,'t".toList ++ [')'])
        [Pattern.onlyB [.contains ['t'], .static .odd, .contains ['t']]] [] := by decide +kernel
    have hy : rows.Selects ("*:has(".toList ++ ("b:contains(".toList ++
          Span.escape "t')]][position() mod 2 = 0][text()[contains(.,'t".toList ++ [')']) ++ [')'])
        (allWith (Pattern.onlyB [.contains ['t'], .static .odd, .contains ['t']])) [[0]] := by
      decide +kernel
    have hs := (Selector.isBalanced_escape
      "t')]][position() mod 2 = 0][text()[contains(.,'t".toList).argument (s := "b:contains".toList) rfl
    exact .of_selects hs rfl hx hy rfl rfl

end NodeSet

end TreeQuery
