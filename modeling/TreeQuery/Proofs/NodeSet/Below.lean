import TreeQuery.Proofs.Adjacency.Reading
import TreeQuery.Proofs.Branches.Anchored
import TreeQuery.Proofs.Expression.Scope
import TreeQuery.Proofs.NodeSet.Sound

/-!
# Finding below an element

The expression of a selector is made to begin at an element by putting a point in front of each
branch. What is found there lies below the element and is found in the whole document too, and for
single compounds nothing below the element is left out.

That the expression of the document can be read is all that is asked: then its chains are read as
they are meant, and behind a point they are read in the same way.

Main statement: `NodeSet.exists_find_below`.
-/

namespace TreeQuery

open XPath XPath.Expr

/-! ## Groups

How the first token of a group is read decides about the chain: a combinator in front would make the
expression begin with another axis, which leads out of what is below an element. The reading keeps
this first token apart from all others, so that it is enough to look at the first of the compounds.
-/

namespace Pattern

/-- More compounds leave the beginning of a chain as it is. -/
theorem Chain.opening_of_extend {nested : Text → Except SelectorError Chain} {before c : Chain}
    {cs : List TreeQuery.Compound} (h : Chain.extend nested before cs = .ok c) :
    c.opening = before.opening := by
  induction cs generalizing before with
  | nil =>
    cases h
    rfl
  | cons d r ih =>
    obtain ⟨e, -, h⟩ := Except.bind_eq_ok h
    exact (ih h).trans rfl

end Pattern

namespace Selector

open Pattern

def groups (s : Text) : List Text := if 1 < (alternatives s).length then alternatives s else [s]

variable {s : Text}

/-- Each chain of a pattern is read from one of the groups. -/
theorem exists_group_of_pattern {p : Pattern} (hp : pattern s = .ok p) {c : Chain} (hc : c ∈ p) :
    ∃ g ∈ groups s, chain g = .ok c := by
  rw [groups]
  split
  · next several => exact Except.exists_of_mem_mapM (mapM_chain_of_pattern hp several) hc
  · next single =>
    obtain ⟨c', hc', rfl⟩ := exists_chain_of_pattern hp single
    obtain rfl := List.mem_singleton.1 hc
    exact ⟨s, List.mem_singleton_self s, hc'⟩

/-- A selector without a combinator in front is read as a chain without one, and a single compound
as a single element. -/
theorem opening_of_chain {c : Chain} (h : chain s = .ok c)
    (hopen : ∀ t, (tokens s).head? = some t → Combinator.ofToken? t = none) :
    c.opening = none ∧ ((tokens s).length = 1 → ∃ e, c = .start none e) := by
  obtain ⟨-, cs, hcs, hread⟩ := exists_compounds h
  rw [Compound.readChain] at hcs
  cases htokens : tokens s with
  | nil =>
    rw [htokens] at hcs
    cases hcs
    cases hread
  | cons t r =>
    rw [htokens] at hcs hopen
    obtain ⟨o, ho, hcs⟩ := Except.bind_eq_ok hcs
    obtain ⟨others, hothers, hcs⟩ := Except.bind_eq_ok hcs
    cases hcs
    -- The first token is no combinator, so it is the first compound, and nothing is in front of it.
    have hsome : ∃ d, o = some d := by
      rw [Compound.read_eq, hopen t rfl] at ho
      obtain ⟨d, -, hd⟩ := Except.map_eq_ok ho
      exact ⟨d, hd.symm⟩
    obtain ⟨d, rfl⟩ := hsome
    obtain ⟨l, -, rfl⟩ := Compound.exists_layout_of_read ho
    obtain ⟨e, -, hread⟩ := Except.bind_eq_ok hread
    obtain ⟨c', hextend, hread⟩ := Except.bind_eq_ok hread
    cases hread
    refine ⟨Chain.opening_of_extend hextend, fun hone => ?_⟩
    obtain rfl : r = [] := by simpa using hone
    cases hothers
    cases hextend
    exact ⟨e, rfl⟩

/-- If no group begins with a combinator, no chain of the pattern does. -/
theorem opening_of_pattern {p : Pattern} (hp : pattern s = .ok p)
    (hopen : ∀ g ∈ groups s, ∀ t, (tokens g).head? = some t → Combinator.ofToken? t = none) :
    ∀ c ∈ p, c.opening = none ∧
      ((∀ g ∈ groups s, (tokens g).length = 1) → ∃ e, c = .start none e) := by
  intro c hc
  obtain ⟨g, hg, hchain⟩ := exists_group_of_pattern hp hc
  obtain ⟨hnone, hsingle⟩ := opening_of_chain hchain (hopen g hg)
  exact ⟨hnone, fun hone => hsingle (hone g hg)⟩

end Selector

/-! ## Bare compounds

What is asked of a selector is asked of the layouts of its compounds, since they are what is
written; what is needed is a property of elements. Each property below is stated for a layout, and
then shown to be one of the element that the compound is read as. -/

namespace Pattern

/-- An argument that is read has some alternative. -/
theorem Condition.isBare_of_read {nested : Text → Except SelectorError Chain} {f : Text}
    {c : Condition} (h : Condition.read nested f = .ok c)
    (htexts : ∀ t, c = .contains t → '\'' ∉ t) : c.IsBare := by
  have hne {α : Type} {argument : Text} {g : Text → Except SelectorError α} {as : List α}
      (has : (Selector.alternatives argument).mapM g = .ok as) : as ≠ [] := by
    rintro rfl
    have hlength := Except.length_of_mapM_eq_ok has
    simp [Selector.alternatives, Pieces.toList] at hlength
  rw [Condition.read] at h
  split at h
  · obtain ⟨cs, hcs, h⟩ := Except.bind_eq_ok h
    cases h
    exact hne hcs
  · split at h
    · cases h
    · cases h
      exact htexts _ rfl
  · obtain ⟨rs, hrs, h⟩ := Except.bind_eq_ok h
    cases h
    exact hne hrs
  · split at h
    · cases h
    · cases h
      trivial

end Pattern

/-- A compound that asks neither for the first nor for the last of all that is matched. -/
def Layout.IsUnscoped (l : Layout) : Prop :=
  ∀ n, .static n ∈ l.items → Text.lower (Span.text n.spans) ≠ StaticPseudo.first.name ∧
    Text.lower (Span.text n.spans) ≠ StaticPseudo.last.name

namespace Layout

open Pattern

variable {nested : Text → Except SelectorError Chain} {relation : Relation} {l : Layout}
  {e : Element}

theorem IsUnscoped.isResultScoped (h : l.IsUnscoped) :
    (l.compound relation).isResultScoped = false := by
  rw [TreeQuery.Compound.isResultScoped, List.any_eq_false]
  intro f hf
  obtain ⟨i, hi, hfragment⟩ := List.mem_filterMap.1 hf
  rw [Bool.or_eq_true, decide_eq_true_eq, decide_eq_true_eq, not_or]
  -- Classes, identifiers and attributes are no pseudo-classes.
  cases i with
  | className | identifier | attributeTest => cases hfragment
  | static n =>
    obtain rfl := Option.some.inj hfragment
    exact h n hi
  | functional n a =>
    obtain rfl := Option.some.inj hfragment
    -- Neither of the two names has a parenthesis.
    have hmem : '(' ∈ n.pseudo.name ++ '(' :: Span.source a.spans ++ [')'] := by simp
    constructor <;>
    · intro he
      rw [he] at hmem
      exact absurd hmem (by decide)

/-- A compound whose tag means nothing but a tag, as it stands behind its escapes, and that asks for
no text with an apostrophe. -/
def IsHarmless (l : Layout) : Prop :=
  IsBareTag (Span.text l.tag.spans) ∧
    ∀ n a, .functional n a ∈ l.items → n.pseudo = .contains → '\'' ∉ Span.text a.spans

theorem isHarmless_of_isPlain (h : l.IsPlain) : l.IsHarmless := by
  refine ⟨h.tag.imp_left fun hstar => ?_, h.2⟩
  rw [hstar]
  rfl

theorem IsHarmless.isSealed (h : l.IsHarmless)
    (hread : Element.read nested (l.compound relation) = .ok e) : e.IsSealed := by
  refine isSealed_of_read hread ?_ h.2
  cases hplain : isPlainTag (Span.text l.tag.spans) with
  | true => exact isSealed_nameTest hplain
  | false =>
    rw [(h.1.of_not_plain hplain).1]
    have htag := h.1.resolve_left (by simp [hplain])
    exact .of_plain fun c hc => isMark_eq_false (p := Compound.isTagChar) (by decide) (htag c hc)

/-- A harmless compound is read as an element that puts in nothing by itself that means something
else. -/
theorem IsHarmless.element (h : l.IsHarmless)
    (hread : Element.read nested (l.compound relation) = .ok e) : e.IsHarmless where
  tag := tag_of_read hread ▸ h.1
  tests t ht := exists_fragment_of_test hread ht
  conditions c hc := by
    have htexts := (h.isSealed hread).texts
    obtain ⟨tests, -, hread⟩ := Except.bind_eq_ok hread
    obtain ⟨conditions, hconditions, hread⟩ := Except.bind_eq_ok hread
    cases hread
    obtain ⟨f, -, hf⟩ := Except.exists_of_mem_mapM hconditions hc
    exact Condition.isBare_of_read hf fun t ht => htexts t (ht ▸ hc)

theorem IsPlain.isHarmless (h : l.IsPlain)
    (hread : Element.read nested (l.compound relation) = .ok e) : e.IsHarmless :=
  (isHarmless_of_isPlain h).element hread

theorem IsPlain.isBare (h : l.IsPlain) (hunscoped : l.IsUnscoped)
    (hread : Element.read nested (l.compound relation) = .ok e) : e.IsBare where
  toIsHarmless := h.isHarmless hread
  unscoped := by
    rw [← Element.isResultScoped_of_read hread]
    exact hunscoped.isResultScoped

end Layout

/-! ## Evaluation

The two expressions, from the document and from an element, are evaluated at different nodes, and
one is read from the text of the other with points put in. The text of the first determines its
meaning, and that the meaning of the second. -/

section

variable {d : Document} {n : Path}

/-- The set of one node finds what the expression selects from there. -/
theorem NodeSet.outcome_find_single {q : NodeSet} (hw : q.isWhole = false)
    (hq : q.document = some d) (hn : q.nodes = [n]) (s : Text) (m : Memory) :
    (q.find s).outcome m =
      match (Selector.compile {} s).outcome m with
      | .ok x => (d.elementsFor (some n) (anchorAll x)).map q.holding
      | .error e => .error (.selector e) := by
  have hlength : q.length = 1 := congrArg List.length hn
  rw [find, Query.outcome_bind, Query.outcome_compile]
  cases (Selector.compile {} s).outcome m with
  | error e => rfl
  | ok x =>
    simp only [Except.mapError, hw, Bool.false_eq_true, if_false, hn, selectBelow,
      Query.outcome_bind, outcome_select hq, hlength]
    cases h : d.elementsFor (some n) (anchorAll x) with
    | error e => rfl
    | ok ps =>
      have hdups : (ps ++ []).eraseDups = ps := by
        rw [List.append_nil, List.eraseDups_of_nodup (Document.nodup_of_elementsFor h)]
      show Except.ok (q.holding (ps ++ []).eraseDups) = .ok (q.holding ps)
      rw [hdups]

end

/-- If the expression of a pattern can be evaluated at all, then it can be made to begin at an
element. What it selects there lies below and is selected in the document too; single elements are
selected wherever they lie below. -/
theorem Document.exists_elementsFor_anchorAll {d : Document} (hd : d.IsTree) {p : Pattern}
    (hne : p ≠ []) (hbare : ∀ c ∈ p, c.Everywhere Pattern.Element.IsBare)
    (hsealed : ∀ c ∈ p, IsSealed c.xpath) (hopening : ∀ c ∈ p, c.opening = none)
    {context : Option Path} {ps : List Path} (h : d.elementsFor context p.xpath = .ok ps)
    (n : Path) : ∃ qs, d.elementsFor (some n) (anchorAll p.xpath) = .ok qs ∧
      (∀ q ∈ qs, n ∈ Path.ancestors q ∧ q ∈ ps) ∧
      ((∀ c ∈ p, ∃ e, c = .start none e) →
        qs = ps.filter fun q => (Path.ancestors q).contains n) := by
  obtain ⟨hx, e, ns, he, hns, rfl⟩ := elementsFor_eq_ok_iff.1 h
  -- That the expression has been read at all leaves one meaning for it.
  have hread : ∀ c ∈ p, c.IsRead := Pattern.isRead_of_ofText?
    (fun c hc => Pattern.Chain.Everywhere.mono (fun _ => (·.toIsHarmless)) (hbare c hc)) hopening he
  have hxpath : Expr.ofText? p.xpath = some (Pattern.expr p) := by
    refine (Pattern.reads_xpath_of_isRead hne fun c hc => ⟨hread c hc, ?_⟩).ofText?
    rw [Pattern.Chain.beginsAtRoot, hopening c hc]
    rfl
  cases he.symm.trans hxpath
  have hanchored := (Pattern.reads_anchorAll_of_isRead hne hsealed hread).ofText?
  have hunscoped (c : Pattern.Chain) (hc : c ∈ p) := c.isUnscoped_of_isBare (hbare c hc)
  -- The same expression, from the element and from the document.
  obtain ⟨ms, ns', hms, hns', hall⟩ := Pattern.within_anchoredExpr hd hne hopening hunscoped n _
  cases hns.symm.trans hns'
  refine ⟨_, elementsFor_eq_ok_iff.2 ⟨Pattern.all_isCompatible_anchorAll hx, _, ms, hanchored,
    hms, rfl⟩, fun q hq => ?_, fun hsingle => ?_⟩
  · obtain ⟨m, hm, hmq⟩ := List.mem_filterMap.1 hq
    obtain ⟨hmem, r, rfl, hr⟩ := hall m hm
    obtain rfl : r = q := by
      rw [Node.element?] at hmq
      split at hmq <;> cases hmq
      rfl
    exact ⟨hr, List.mem_filterMap.2 ⟨_, hmem, hmq⟩⟩
  · -- Single elements are told from the node alone, which the filter does too.
    obtain ⟨ns₂, hns₂, hms₂⟩ := Pattern.filters_anchoredExpr hd hne (fun c hc => by
      obtain ⟨e, rfl⟩ := hsingle c hc
      exact ⟨e, rfl, e.isResultScoped_of_isBare (hbare _ hc)⟩) n
        ⟨.tree ((context.or d.root?).getD []), 0, 0⟩
    cases hns.symm.trans hns₂
    cases hms.symm.trans hms₂
    rw [Node.filterMap_element?, Node.filterMap_element?, Node.filterMap_filter_onTree,
      List.filter_filter, List.filter_filter]
    exact List.filter_congr fun q _ => Bool.and_comm _ _

/-! ## Sets

Nothing is assumed of the set of the element but that the element is one. It may be written in
another way than the document, and its cache may have other entries. -/

namespace NodeSet

theorem ofNodes_of_isElement {d : Document} {n : Path} (hn : d.isElement n = true)
    (asXml : Option Bool) : (ofNodes d [n] asXml).isWhole = false ∧
      (ofNodes d [n] asXml).document = some d ∧ (ofNodes d [n] asXml).nodes = [n] := by
  simp [ofNodes, hn]

section

variable {d : Document} {n : Path} {s : Text} {m : Memory} {asXml : Option Bool} {found : NodeSet}

/-- What has been found in a document has been selected by the expression of the selector. -/
theorem exists_elementsFor_of_find {asXml : Bool}
    (h : ((ofDocument d asXml).find s).outcome m = .ok found) :
    ∃ x ps, (Selector.compile {} s).outcome m = .ok x ∧ d.elementsFor none x = .ok ps ∧
      found.nodes = ps := by
  rw [outcome_find rfl rfl] at h
  cases hx : (Selector.compile {} s).outcome m with
  | error e =>
    rw [hx] at h
    cases h
  | ok x =>
    rw [hx] at h
    obtain ⟨ps, hps, rfl⟩ := Except.map_eq_ok h
    exact ⟨x, ps, rfl, hps, rfl⟩

/-- Only the nodes of what has been found are new. -/
theorem eq_holding_of_find {asXml : Bool}
    (h : ((ofDocument d asXml).find s).outcome m = .ok found) :
    found = (ofDocument d asXml).holding found.nodes := by
  rw [outcome_find rfl rfl] at h
  split at h
  · obtain ⟨ps, -, rfl⟩ := Except.map_eq_ok h
    rfl
  · cases h

/-- If something is found below an element the selector has been compiled. -/
theorem exists_compile_of_find_ofNodes (hn : d.isElement n = true)
    (h : ((ofNodes d [n] asXml).find s).outcome m = .ok found) :
    ∃ x, (Selector.compile {} s).outcome m = .ok x := by
  obtain ⟨hwhole, hdocument, hnodes⟩ := ofNodes_of_isElement hn asXml
  rw [outcome_find_single hwhole hdocument hnodes] at h
  cases hx : (Selector.compile {} s).outcome m with
  | error e =>
    rw [hx] at h
    cases h
  | ok x => exact ⟨x, rfl⟩

/-- What is found below an element is what the anchored expression selects there. -/
theorem outcome_find_ofNodes (hn : d.isElement n = true) {x : Text}
    (hx : (Selector.compile {} s).outcome m = .ok x) {qs : List Path}
    (hqs : d.elementsFor (some n) (anchorAll x) = .ok qs) :
    ((ofNodes d [n] asXml).find s).outcome m = .ok ((ofNodes d [n] asXml).holding qs) := by
  obtain ⟨hwhole, hdocument, hnodes⟩ := ofNodes_of_isElement hn asXml
  rw [outcome_find_single hwhole hdocument hnodes, hx]
  simp only [hqs]
  rfl

end

/-- What the expression of such a selector as below comes to from an element: elements below, which
it selects in the document too; and all of them, in the same order, if every group is one compound.
-/
theorem exists_elementsFor_below {d : Document} (hd : d.IsTree) {s : Text}
    (hplain : Selector.Everywhere Layout.IsPlain s)
    (hunscoped : Selector.Everywhere Layout.IsUnscoped s)
    (hopen : ∀ g ∈ Selector.groups s, ∀ t, (Selector.tokens g).head? = some t →
      Combinator.ofToken? t = none)
    {m : Memory} (hm : m.cache.Sound) {x : Text} (hx : (Selector.compile {} s).outcome m = .ok x)
    {ps : List Path} (hps : d.elementsFor none x = .ok ps) (n : Path) :
    ∃ qs, d.elementsFor (some n) (anchorAll x) = .ok qs ∧
      (∀ q ∈ qs, n ∈ Path.ancestors q ∧ q ∈ ps) ∧
      ((∀ g ∈ Selector.groups s, (Selector.tokens g).length = 1) →
        qs = ps.filter fun q => (Path.ancestors q).contains n) := by
  obtain ⟨p, hp, rfl⟩ := Selector.exists_pattern_of_outcome hm hx
  have hgroup := Selector.opening_of_pattern hp hopen
  have hbare := Selector.everywhere_pattern (p := Pattern.Element.IsBare)
    (fun _ _ _ _ hread hl => hl.1.isBare hl.2 hread) (hplain.and hunscoped) hp
  have hsealed : ∀ c ∈ p, IsSealed c.xpath := fun c hc => c.isSealed_xpath
    (Selector.everywhere_pattern (fun _ _ _ _ hread hl => hl.isSealed hread) hplain hp c hc)
  obtain ⟨qs, hqs, hwithin, hsingle⟩ := Document.exists_elementsFor_anchorAll hd
    (Selector.ne_nil_of_pattern hp) hbare hsealed (fun c hc => (hgroup c hc).1) hps n
  exact ⟨qs, hqs, hwithin, fun hone => hsingle fun c hc => (hgroup c hc).2 hone⟩

/-- What a selector without escapes in tags, without apostrophes in texts and without `:first` and
`:last` finds below an element, if it finds anything in the document at all and no group opens with
a combinator: elements below, which are found in the document too, whatever is remembered of
selectors; and all of them, in the same order, if every group is one compound. -/
theorem exists_find_below {d : Document} (hd : d.IsTree) {n : Path} (hn : d.isElement n = true)
    {s : Text} (hplain : Selector.Everywhere Layout.IsPlain s)
    (hunscoped : Selector.Everywhere Layout.IsUnscoped s)
    (hopen : ∀ g ∈ Selector.groups s, ∀ t, (Selector.tokens g).head? = some t →
      Combinator.ofToken? t = none)
    {m : Memory} (hm : m.cache.Sound) {asXml : Bool} {found : NodeSet}
    (hfound : ((ofDocument d asXml).find s).outcome m = .ok found) (asXml' : Option Bool) :
    ∃ below, ((ofNodes d [n] asXml').find s).outcome m = .ok below ∧
      (∀ m' : Memory, m'.cache.Sound → ∀ other,
        ((ofNodes d [n] asXml').find s).outcome m' = .ok other → other = below) ∧
      (∀ p ∈ below.nodes, p ∈ d.descendants n ∧ p ∈ found.nodes) ∧
      ((∀ g ∈ Selector.groups s, (Selector.tokens g).length = 1) →
        below.nodes = found.nodes.filter ((d.descendants n).contains ·)) := by
  obtain ⟨x, ps, hx, hps, rfl⟩ := exists_elementsFor_of_find hfound
  obtain ⟨qs, hqs, hwithin, hsingle⟩ :=
    exists_elementsFor_below hd hplain hunscoped hopen hm hx hps n
  have hdescendants {q : Path} (hq : q ∈ found.nodes) :
      q ∈ d.descendants n ↔ n ∈ Path.ancestors q :=
    Document.mem_descendants_iff (Document.isSome_of_isElement (isElement_of_elementsFor hps q hq))
  refine ⟨_, outcome_find_ofNodes hn hx hqs, fun m' hm' other hother => ?_, fun q hq => ?_,
    fun hone => ?_⟩
  · -- Any sound memory gives the selector the same pattern.
    obtain ⟨p, hp, rfl⟩ := Selector.exists_pattern_of_outcome hm hx
    obtain ⟨x, hx'⟩ := exists_compile_of_find_ofNodes hn hother
    obtain ⟨p', hp', rfl⟩ := Selector.exists_pattern_of_outcome hm' hx'
    cases hp.symm.trans hp'
    exact Except.ok.inj (hother.symm.trans (outcome_find_ofNodes hn hx' hqs))
  · exact ⟨(hdescendants (hwithin q hq).2).2 (hwithin q hq).1, (hwithin q hq).2⟩
  · refine (hsingle hone).trans (List.filter_congr fun q hq => ?_)
    rw [Bool.eq_iff_iff, List.contains_iff_mem, List.contains_iff_mem, hdescendants hq]

end NodeSet

/-! ## A sample

The root of the document is found in the document but not below itself, so that what is below is
less than all. -/

namespace Written

def rootOrLast : Written where
  first := .start none (.untagged (.static .root) [])
  others := [.start none
    (.tagged (.named ⟨"li".toList, nofun, eq_false_of_all (by decide)⟩) [.static .lastChild])]

example : rootOrLast.print = ":root, li:last-child".toList := by decide

theorem groups_rootOrLast :
    Selector.groups rootOrLast.print = [":root".toList, "li:last-child".toList] := by
  rw [Selector.groups, print, alternatives_source]
  decide

theorem everywhere_rootOrLast : Selector.Everywhere Layout.IsPlain rootOrLast.print ∧
    Selector.Everywhere Layout.IsUnscoped rootOrLast.print := by
  have halternatives := alternatives_source rootOrLast.first rootOrLast.others
  have hboth : Selector.Everywhere (fun l => l.IsPlain ∧ l.IsUnscoped) rootOrLast.print := by
    refine Selector.everywhere_of_alternatives ?_ ?_
    · rw [print, halternatives]
      decide
    · rw [print, halternatives]
      intro t ht
      rcases List.mem_pair.1 ht with rfl | rfl
      · refine Selector.everywhere_of_layouts (not_holds_print (by decide)) fun token htoken => ?_
        rw [tokens_print] at htoken
        obtain rfl := List.mem_singleton.1 htoken
        exact ⟨⟨⟨[], .inr (by decide)⟩, [.static ⟨"root".toList.map Span.plain, rfl⟩]⟩, rfl,
          ⟨by decide, by simp⟩, by simp [Layout.IsUnscoped]; decide⟩
      · refine Selector.everywhere_of_layouts (not_holds_print (by decide)) fun token htoken => ?_
        rw [tokens_print] at htoken
        obtain rfl := List.mem_singleton.1 htoken
        exact ⟨⟨⟨"li".toList.map Span.plain, .inr (by decide)⟩,
          [.static ⟨"last-child".toList.map Span.plain, rfl⟩]⟩, rfl,
          ⟨by decide, by simp⟩, by simp [Layout.IsUnscoped]; decide⟩
  exact ⟨hboth.mono fun _ => And.left, hboth.mono fun _ => And.right⟩

end Written

namespace NodeSet

/-- Below the outer element the last one is found; the outer element itself is found in the document
only. -/
theorem exists_find_below_rootOrLast :
    Written.list.IsTree ∧ Selector.Everywhere Layout.IsPlain Written.rootOrLast.print ∧
      Selector.Everywhere Layout.IsUnscoped Written.rootOrLast.print ∧
      ((ofDocument Written.list true).find Written.rootOrLast.print).outcome {} =
        .ok ((ofDocument Written.list true).holding [[0], [0, 1]]) ∧
      ∃ below, ((ofNodes Written.list [[0]] none).find Written.rootOrLast.print).outcome {} =
        .ok below ∧ below.nodes = [[0, 1]] := by
  have htree : Written.list.IsTree := Document.isTree_of_isProper (by decide)
  have hcompile : (Selector.compile {} Written.rootOrLast.print).outcome {} =
      .ok Written.rootOrLast.pattern.xpath :=
    Selector.outcome_of_nesting_le Written.rootOrLast.pattern_print (by decide) Cache.sound_empty
  have hfound : ((ofDocument Written.list true).find Written.rootOrLast.print).outcome {} =
      .ok ((ofDocument Written.list true).holding [[0], [0, 1]]) := by
    rw [outcome_find rfl rfl, hcompile]
    simp only [Document.elementsFor_xpath htree (p := Written.rootOrLast.pattern) (by decide)]
    decide
  obtain ⟨hplain, hunscoped⟩ := Written.everywhere_rootOrLast
  obtain ⟨below, hbelow, -, -, hsingle⟩ := exists_find_below htree (n := [0]) (by decide) hplain
    hunscoped (by rw [Written.groups_rootOrLast]; decide) Cache.sound_empty hfound none
  refine ⟨htree, hplain, hunscoped, hfound, below, hbelow, ?_⟩
  rw [hsingle (by rw [Written.groups_rootOrLast]; decide)]
  decide

end NodeSet

end TreeQuery
