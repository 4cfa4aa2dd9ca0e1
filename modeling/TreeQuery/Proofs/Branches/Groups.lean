import TreeQuery.Proofs.Branches.Sealed
import TreeQuery.Proofs.Compilation.Levels
import TreeQuery.Proofs.Expression.Reading
import TreeQuery.Proofs.Expression.TestNames
import TreeQuery.Proofs.Pattern.Everywhere
import TreeQuery.Proofs.Written.Reading

/-!
# The branches of a compiled selector

A selector is split into groups at its commas, the expression that it is compiled to into branches
at its bars; the two scanners have rules of their own for escapes, quotes and brackets. They agree
as long as no tag and no text can change the expression: then everything that is put into an
expression is sealed, and the branches are what the groups are compiled to.

Main statement: `Selector.branches_outcome`.
-/

namespace TreeQuery

open XPath

/-! ## Predicates

A predicate is put together from fixed signs, the name and the value. The fixed signs are not sealed
one by one, as some open what others close; each of them takes the scan from one depth to another,
and along the predicate the depths fit together. The value is always between apostrophes and has
none of its own. -/

/-- No character means something to the scan if it has a property that none of the marks has. -/
theorem isMark_eq_false {p : Char → Bool} (hp : "'\"[]()|".toList.all (!p ·) = true) {c : Char}
    (h : p c = true) : isMark c = false := by
  by_contra hm
  rw [Bool.not_eq_false, isMark, List.contains_iff_mem] at hm
  have hall := List.all_eq_true.1 hp c hm
  rw [h] at hall
  cases hall

namespace AttributeTest

/-- Whatever stands between apostrophes is sealed. -/
theorem isSealed_literal {v : Text} (h : '\'' ∉ v) : IsSealed (literal v) := by
  show closesFrom (some '\'') 0 (v ++ ['\'']) = true
  rw [closesFrom_quoted h]
  rfl

/-- A predicate is sealed if its name means nothing to the scan and its value has no apostrophe. -/
theorem isSealed_predicate {t : AttributeTest} (hn : ∀ c ∈ t.name, isMark c = false)
    (hv : ∀ o v, t.comparison = some (o, v) → '\'' ∉ v) : IsSealed t.predicate := by
  obtain ⟨name, comparison⟩ := t
  have hsubject : IsSealed ('@' :: name) := by
    rw [IsSealed, closesFrom_of_not_isMark (by decide)]
    exact IsSealed.of_plain hn
  -- The signs that all predicates begin and end with.
  have hbracket : Takes 0 "[".toList 1 := .literal 0 1 fun _ => rfl
  have hclose : Takes 1 "]".toList 0 := .literal 1 0 fun _ => rfl
  have hfirst := hbracket.append (hsubject.takes 1)
  cases comparison with
  | none => exact (hfirst.append hclose).isSealed
  | some c =>
    obtain ⟨operator, value⟩ := c
    have hquote : '\'' ∉ value := hv operator value rfl
    have hvalue := isSealed_literal hquote
    have hlast := (hvalue.takes 1).append hclose
    have hend : Takes 2 ")]".toList 0 := .literal 2 0 fun _ => rfl
    have hcall := (hvalue.takes 2).append hend
    rw [predicate]
    simp only
    split
    · exact Text.of_literal (P := IsSealed) rfl
    · refine Takes.isSealed ?_
      cases operator with
      | equals =>
        have := hfirst.append ((Takes.literal (t := ['=']) 1 1 fun _ => rfl).append hlast)
        simpa only [List.append_assoc] using this
      | differs =>
        have := hfirst.append ((Takes.literal (t := ['!', '=']) 1 1 fun _ => rfl).append hlast)
        simpa only [List.append_assoc] using this
      | part =>
        have hopen : Takes 0 "[contains(".toList 2 := .literal 0 2 fun _ => rfl
        have hcomma : Takes 2 ", ".toList 2 := .literal 2 2 fun _ => rfl
        have := ((hopen.append (hsubject.takes 2)).append hcomma).append hcall
        simpa only [List.append_assoc] using this
      | beginning =>
        have hopen : Takes 0 "[starts-with(".toList 2 := .literal 0 2 fun _ => rfl
        have hcomma : Takes 2 ", ".toList 2 := .literal 2 2 fun _ => rfl
        have := ((hopen.append (hsubject.takes 2)).append hcomma).append hcall
        simpa only [List.append_assoc] using this
      | word =>
        have hword := isSealed_literal (v := ' ' :: value ++ [' ']) (by simp [hquote])
        have hopen : Takes 0 "[contains(concat(' ', normalize-space(".toList 4 :=
          .literal 0 4 fun _ => rfl
        have hcomma : Takes 4 "), ' '), ".toList 2 := .literal 4 2 fun _ => rfl
        exact ((((hopen.append (hsubject.takes 4)).append hcomma).append (hword.takes 2)).append
          hend).isSealed.takes 0
      | ending =>
        have hdigits : IsSealed (Nat.toDigits 10 (value.length - 1)) := .of_plain fun c hc =>
          isMark_eq_false (p := Char.isDigit) (by decide)
            (Nat.isDigit_of_mem_toDigits (by decide) (by decide) hc)
        have hand : Takes 1 " and substring(".toList 2 := .literal 1 2 fun _ => rfl
        have hlength : Takes 2 ", string-length(".toList 3 := .literal 2 3 fun _ => rfl
        have hminus : Takes 3 ")-".toList 2 := .literal 3 2 fun _ => rfl
        have hequal : Takes 2 ") = ".toList 1 := .literal 2 1 fun _ => rfl
        have hcut := ((hfirst.append hand).append (hsubject.takes 2)).append
          (hlength.append (hsubject.takes 3))
        have := (hcut.append hminus).append (((hdigits.takes 2).append hequal).append hlast)
        simpa only [List.append_assoc] using this
      | dashed =>
        have hdash := isSealed_literal (v := value ++ ['-']) (by simp [hquote])
        have hequal : Takes 1 "=".toList 1 := .literal 1 1 fun _ => rfl
        have hor : Takes 1 " or starts-with(".toList 2 := .literal 1 2 fun _ => rfl
        have hcomma : Takes 2 ", ".toList 2 := .literal 2 2 fun _ => rfl
        have hleft := (hfirst.append hequal).append (hvalue.takes 1)
        have hright := ((hor.append (hsubject.takes 2)).append hcomma).append
          ((hdash.takes 2).append hend)
        simpa only [List.append_assoc] using hleft.append hright

/-- The predicate of a test that has been read is sealed. -/
theorem isSealed_of_ofFragment? {f : Text} {t : AttributeTest} (h : ofFragment? f = some t) :
    IsSealed t.predicate := by
  obtain ⟨c, r, hc, hr, hname, hvalue⟩ := exists_of_ofFragment? h
  refine isSealed_predicate (fun d hd => isMark_eq_false (p := Text.isNamePart) (by decide) ?_) fun o v hv hm => ?_
  · rw [hname] at hd
    refine List.all_eq_true.1 (all_isNamePart_lowerFrom (fun d hd => ?_) []) d hd
    rcases List.mem_cons.1 hd with rfl | hd
    · exact isNamePart_of_isNameStart hc
    · exact hr d hd
  · exact absurd (hvalue o v hv _ hm) (by decide)

end AttributeTest

/-- The predicates without an argument are fixed. -/
theorem StaticPseudo.isSealed_predicate (p : StaticPseudo) : IsSealed p.predicate := by
  cases p <;> exact Text.of_literal (P := fun t => closesFrom none 0 t = true) (by decide)

/-! ## Paths

What an element puts into an expression is its name, its predicates and the texts of its conditions;
the selectors in its conditions are chains again. So the lemmas are mutual, as the definition of
paths is, and each of them takes what holds of the elements at every depth. Where a path is put
between fixed signs, the scan skips it at whatever depth it stands. -/

namespace Pattern

/-- What an element puts into an expression by itself is sealed. -/
structure Element.IsSealed (e : Element) : Prop where
  nameTest : XPath.IsSealed (nameTest e.tag)
  tests : ∀ t ∈ e.tests, XPath.IsSealed t.predicate
  texts : ∀ t, .contains t ∈ e.conditions → '\'' ∉ t

theorem isSealed_unrooted {t : Text} (h : IsSealed t) : IsSealed (unrooted t) := by
  induction t with
  | nil => exact h
  | cons c t ih =>
    rw [unrooted, Text.dropLeading, List.dropWhile_cons]
    split
    · next hc =>
      obtain rfl : c = '/' := by simpa using hc
      exact ih (h.tail rfl)
    · exact h

/-- The slashes and names of an axis mean nothing to the scan. -/
theorem isSealed_axis (o : Option Combinator) : IsSealed (axis o) := by
  cases o with
  | none => rfl
  | some k => cases k <;> rfl

theorem isSealed_parentheses {t : Text} (h : IsSealed t) : IsSealed ('(' :: t ++ [')']) := by
  show closesFrom none 1 (t ++ [')']) = true
  rw [h.skip]
  rfl

theorem isSealed_contains {t : Text} (h : '\'' ∉ t) :
    IsSealed (Condition.contains t).predicate := by
  rw [Condition.predicate_contains, List.append_assoc]
  show closesFrom (some '\'') 3 (t ++ '\'' :: ")]]".toList) = true
  rw [closesFrom_quoted h]
  rfl

mutual

theorem Condition.isSealed_predicate : ∀ c : Condition, c.Everywhere Element.IsSealed →
    (∀ t, c = .contains t → '\'' ∉ t) → IsSealed c.predicate
  | .static p, _, _ => p.isSealed_predicate
  | .contains t, _, h => isSealed_contains (h t rfl)
  | .not cs, h, _ => by
    -- The paths are skipped, and the signs around them are left.
    have hall := IsSealed.intercalate (a := " or ".toList) rfl (isSealed_selfPaths cs h)
    rw [Condition.predicate_not, List.append_assoc]
    show closesFrom none 2 (List.intercalate " or ".toList (selfPaths cs) ++ _) = true
    rw [hall.skip]
    rfl
  | .has rs, h, _ => by
    have hall := IsSealed.intercalate (a := " or ".toList) rfl (isSealed_relativePaths rs h)
    rw [Condition.predicate_has]
    show closesFrom none 1 (List.intercalate " or ".toList (relativePaths rs) ++ [']']) = true
    rw [hall.skip]
    rfl

theorem isSealed_selfPaths : ∀ cs : List Chain, chainsEverywhere Element.IsSealed cs →
    ∀ t ∈ selfPaths cs, IsSealed t
  | [], _ => nofun
  | c :: r, h => by
    intro t ht
    rcases List.mem_cons.1 ht with rfl | ht
    · exact IsSealed.append rfl (isSealed_unrooted (c.isSealed_xpath h.1))
    · exact isSealed_selfPaths r h.2 t ht

theorem isSealed_relativePaths : ∀ rs : List Relative, relativesEverywhere Element.IsSealed rs →
    ∀ t ∈ relativePaths rs, IsSealed t
  | [], _ => nofun
  | .mk direct c :: r, h => by
    intro t ht
    rcases List.mem_cons.1 ht with rfl | ht
    · refine IsSealed.append ?_ (isSealed_unrooted (c.isSealed_xpath h.1))
      cases direct <;> rfl
    · exact isSealed_relativePaths r h.2 t ht

theorem isSealed_withConditions : ∀ (cs : List Condition) {path : Text},
    conditionsEverywhere Element.IsSealed cs → (∀ t, .contains t ∈ cs → '\'' ∉ t) →
    IsSealed path → IsSealed (withConditions path cs)
  | [], _, _, _, hpath => hpath
  | c :: r, path, h, htexts, hpath => by
    have hinner : IsSealed (if c.isResultScoped then '(' :: path ++ [')'] else path) := by
      split
      · exact isSealed_parentheses hpath
      · exact hpath
    have hpredicate := c.isSealed_predicate h.1 fun t ht => htexts t (ht ▸ List.mem_cons_self)
    exact isSealed_withConditions r h.2 (fun t ht => htexts t (List.mem_cons_of_mem c ht))
      (hinner.append hpredicate)

theorem Element.isSealed_appendTo : ∀ (e : Element) {path nearest : Text},
    e.Everywhere Element.IsSealed → IsSealed path → IsSealed nearest →
    IsSealed (e.appendTo path nearest)
  | .mk tag tests conditions, path, nearest, h, hpath, hnearest => by
    have htests : IsSealed (tests.flatMap AttributeTest.predicate) := .flatMap h.1.tests
    exact isSealed_withConditions conditions h.2 h.1.texts
      (((hpath.append h.1.nameTest).append hnearest).append htests)

/-- The path of a chain is sealed if what its elements put into it is. -/
theorem Chain.isSealed_xpath : ∀ c : Chain, c.Everywhere Element.IsSealed → IsSealed c.xpath
  | .start o e, h => e.isSealed_appendTo h (isSealed_axis o) rfl
  | .link b o e, h => by
    have hb := b.isSealed_xpath h.1
    have hnext := hb.append (isSealed_axis o)
    have hxpath : (Chain.link b o e).xpath = if o = some .adjacent then
        if b.last.isResultScoped then
          e.appendTo (b.xpath ++ "/following-sibling::*[1]/self::".toList) []
        else
          e.appendTo (b.xpath ++ axis o)
            ("[preceding-sibling::*[1][self::".toList ++ b.lastTest ++ "]]".toList)
      else e.appendTo (b.xpath ++ axis o) [] := rfl
    -- Of the three ways to go on, two are for a next sibling.
    have hnearest : IsSealed ("[preceding-sibling::*[1][self::".toList ++ b.lastTest ++
        "]]".toList) := by
      rw [List.append_assoc]
      show closesFrom none 2 (b.lastTest ++ "]]".toList) = true
      rw [(b.isSealed_lastTest h.1).skip]
      rfl
    rw [hxpath]
    split
    · split
      · exact e.isSealed_appendTo h.2 (hb.append rfl) rfl
      · exact e.isSealed_appendTo h.2 hnext hnearest
    · exact e.isSealed_appendTo h.2 hnext rfl

theorem Chain.isSealed_lastTest : ∀ c : Chain, c.Everywhere Element.IsSealed →
    IsSealed c.lastTest
  | .start _ e, h => isSealed_unrooted (e.isSealed_appendTo h (isSealed_axis none) rfl)
  | .link _ _ e, h => isSealed_unrooted (e.isSealed_appendTo h.2 (isSealed_axis none) rfl)

end

/-! ## The beginning of a path

A path begins with a slash, but conditions on the whole result put parentheses around it, so that
the slash may stand behind any number of them. The relation between a path and the same path from
the context node is kept by everything that is put behind either of them. -/

/-- A path that begins at the document, perhaps behind opening parentheses, and the same path from
the context node. -/
def Anchors (t u : Text) : Prop :=
  ∃ k r, t = List.replicate k '(' ++ '/' :: r ∧ u = List.replicate k '(' ++ '.' :: '/' :: r

section

variable {t u : Text}

theorem Anchors.append (h : Anchors t u) (v : Text) : Anchors (t ++ v) (u ++ v) := by
  obtain ⟨k, r, rfl, rfl⟩ := h
  exact ⟨k, r ++ v, by simp, by simp⟩

theorem Anchors.enclosed (h : Anchors t u) : Anchors ('(' :: t) ('(' :: u) := by
  obtain ⟨k, r, rfl, rfl⟩ := h
  exact ⟨k + 1, r, rfl, rfl⟩

/-- Conditions put something behind the path, or parentheses around it. -/
theorem Anchors.withConditions (h : Anchors t u) (cs : List Condition) :
    Anchors (withConditions t cs) (withConditions u cs) := by
  induction cs generalizing t u with
  | nil => exact h
  | cons c r ih =>
    apply ih
    apply Anchors.append
    split
    · exact h.enclosed.append _
    · exact h

theorem Element.anchors_appendTo (e : Element) (h : Anchors t u) (nearest : Text) :
    Anchors (e.appendTo t nearest) (e.appendTo u nearest) := by
  obtain ⟨tag, tests, conditions⟩ := e
  exact (((h.append _).append _).append _).withConditions conditions

/-- A chain goes on in the same way wherever it begins. -/
theorem Chain.anchors_xpathFrom (h : Anchors t u) :
    ∀ c : Chain, Anchors (c.xpathFrom t) (c.xpathFrom u)
  | .start _ e => e.anchors_appendTo h []
  | .link b o e => by
    have hb := b.anchors_xpathFrom h
    rw [xpathFrom, xpathFrom]
    split
    · split <;> exact e.anchors_appendTo (hb.append _) _
    · exact e.anchors_appendTo (hb.append _) _

theorem Chain.anchors_xpath (c : Chain) : Anchors c.xpath (c.xpathFrom ('.' :: axis c.opening)) := by
  rw [c.xpath_eq]
  apply c.anchors_xpathFrom
  cases c.opening with
  | none => exact ⟨0, _, rfl, rfl⟩
  | some k => cases k <;> exact ⟨0, _, rfl, rfl⟩

/-- A point is put in front of the slash that such a path begins with. -/
theorem Anchors.anchor_eq (h : Anchors t u) : anchor t = u := by
  obtain ⟨k, r, rfl, rfl⟩ := h
  have hall : ∀ c ∈ List.replicate k '(', (c == '(') = true := by
    intro c hc
    rw [(List.mem_replicate.1 hc).2]
    rfl
  rw [anchor, List.takeWhile_append_of_pos hall, List.dropWhile_append_of_pos hall]
  simp

end

end Pattern

/-! ## Plain selectors

A selector is plain if no tag in it has an escape and no text it asks for has an apostrophe. That is
said of the layouts of its compounds, so it is about the text and not about what is read from it;
the elements that are read then put nothing unsealed into an expression. -/

/-- A compound whose tag has no escape and that asks for no text with an apostrophe. -/
def Layout.IsPlain (l : Layout) : Prop :=
  (∀ s ∈ l.tag.spans, s.escaped = false) ∧
    ∀ n a, .functional n a ∈ l.items → n.pseudo = .contains → '\'' ∉ Span.text a.spans

namespace Layout

open Pattern

section

variable {nested : Text → Except SelectorError Chain} {relation : Relation} {l : Layout}
  {e : Element}

/-- The text that a condition asks for stands in the argument of an item. -/
theorem exists_functional_of_contains (h : Element.read nested (l.compound relation) = .ok e)
    {t : Text} (ht : .contains t ∈ e.conditions) :
    ∃ n a, .functional n a ∈ l.items ∧ n.pseudo = .contains ∧ t = Span.text a.spans := by
  obtain ⟨tests, -, h⟩ := Except.bind_eq_ok h
  obtain ⟨conditions, hconditions, h⟩ := Except.bind_eq_ok h
  cases h
  obtain ⟨f, hf, hread⟩ := Except.exists_of_mem_mapM hconditions ht
  obtain ⟨i, hi, hfragment⟩ := List.mem_filterMap.1 hf
  -- Each item gives a fragment, but only one of a pseudo-class with an argument gives a condition
  -- on the text.
  cases i with
  | className | identifier | attributeTest => cases hfragment
  | static n =>
    obtain rfl := Option.some.inj hfragment
    have hnone := FunctionalPseudo.ofFragment?_eq_none (Compound.notMem_of_namesPseudoClass n.names)
    rw [Condition.read, hnone] at hread
    simp only at hread
    split at hread <;> cases hread
  | functional n a =>
    obtain rfl := Option.some.inj hfragment
    have hne : Span.source a.spans ≠ [] := by
      intro he
      have := a.notBlank
      rw [he] at this
      cases this
    refine ⟨n, a, hi, ?_⟩
    rw [Condition.read, FunctionalPseudo.ofFragment?_fragment _ hne] at hread
    cases hp : n.pseudo with
    | not =>
      rw [hp] at hread
      obtain ⟨cs, -, he⟩ := Except.bind_eq_ok hread
      cases he
    | has =>
      rw [hp] at hread
      obtain ⟨rs, -, he⟩ := Except.bind_eq_ok hread
      cases he
    | contains =>
      rw [hp] at hread
      simp only [a.nested.resolve?_source] at hread
      cases hread
      exact ⟨rfl, rfl⟩

theorem tag_of_read (h : Element.read nested (l.compound relation) = .ok e) :
    e.tag = Span.text l.tag.spans := by
  obtain ⟨tests, -, h⟩ := Except.bind_eq_ok h
  obtain ⟨conditions, -, h⟩ := Except.bind_eq_ok h
  cases h
  rfl

/-- Each test of an element is read from a fragment. -/
theorem exists_fragment_of_test (h : Element.read nested (l.compound relation) = .ok e)
    {t : AttributeTest} (ht : t ∈ e.tests) : ∃ f, AttributeTest.ofFragment? f = some t := by
  obtain ⟨tests, htests, h⟩ := Except.bind_eq_ok h
  obtain ⟨conditions, -, h⟩ := Except.bind_eq_ok h
  cases h
  obtain ⟨f, -, hread⟩ := Except.exists_of_mem_mapM htests ht
  refine ⟨f, ?_⟩
  unfold readTest at hread
  split at hread
  · next hf => cases hread; exact hf
  · cases hread

/-- The tag of a plain compound stands for any element or is made of characters of tags. -/
theorem IsPlain.tag (h : l.IsPlain) : Span.text l.tag.spans = ['*'] ∨
    ∀ c ∈ Span.text l.tag.spans, Compound.isTagChar c = true := by
  refine l.tag.isTag.imp_right fun htag c hc => ?_
  obtain ⟨s, hs, rfl⟩ := List.mem_map.1 hc
  exact htag s hs (h.1 s hs)

/-- A compound is read as an element that puts sealed texts into an expression if its tag is sealed
and it asks for no text with an apostrophe. -/
theorem isSealed_of_read (hread : Element.read nested (l.compound relation) = .ok e)
    (htag : IsSealed (Pattern.nameTest (Span.text l.tag.spans)))
    (htexts : ∀ n a, .functional n a ∈ l.items → n.pseudo = .contains → '\'' ∉ Span.text a.spans) :
    e.IsSealed where
  nameTest := by
    rw [tag_of_read hread]
    exact htag
  tests t ht := by
    obtain ⟨f, hf⟩ := exists_fragment_of_test hread ht
    exact AttributeTest.isSealed_of_ofFragment? hf
  texts t ht := by
    obtain ⟨n, a, hi, hp, rfl⟩ := exists_functional_of_contains hread ht
    exact htexts n a hi hp

theorem IsPlain.isSealed (h : l.IsPlain)
    (hread : Element.read nested (l.compound relation) = .ok e) : e.IsSealed := by
  refine isSealed_of_read hread ?_ h.2
  rw [Pattern.nameTest]
  split
  · rfl
  · rcases h.tag with hany | hname
    · rw [hany]
      rfl
    · exact .of_plain fun c hc => isMark_eq_false (p := Compound.isTagChar) (by decide) (hname c hc)

end

end Layout

namespace Selector

open Pattern

/-- The groups of a selector are compiled to the paths of its chains. -/
theorem mapM_outcome_alternatives {s : Text} {p : Pattern} (hp : pattern s = .ok p)
    (several : 1 < (alternatives s).length) {settings : Settings}
    (hd : (s.length : Int) ≤ settings.maxDepth) {m : Memory} (hm : m.cache.Sound) :
    (alternatives s).mapM (fun t => (compile settings t).outcome m) =
      .ok (p.map Chain.xpath) := by
  have hchains := mapM_chain_of_pattern hp several
  have hgroup : ∀ t ∈ alternatives s,
      (compile settings t).outcome m = (chain t).map Chain.xpath := by
    intro t ht
    have hholds : Holds s t := .alternative several ht
    obtain ⟨c, -, hc⟩ := Except.exists_of_mapM_eq_ok hchains ht
    have hpattern : pattern t = .ok [c] := by rw [hholds.pattern_eq, hc]; rfl
    have hlength := hholds.length_lt
    rw [outcome_of_length_le hpattern (by omega) hm, hc, xpath]
    simp [Except.map]
  rw [Except.mapM_congr hgroup, Except.mapM_map, hchains]
  rfl

/-- The branches of a plain selector that is compiled are what its groups are compiled to, and it is
its own only branch if there is one group. The scan that finds them never comes further out than it
began and ends there, with no quote open. Each branch begins at the document, behind opening
parentheses if there are any, and is made to begin at the context node by a point there. -/
theorem branches_outcome {s : Text} (hs : Everywhere Layout.IsPlain s) {settings : Settings}
    {m : Memory} (hm : m.cache.Sound) {x : Text} (hx : (compile settings s).outcome m = .ok x) :
    (if 1 < (alternatives s).length then
        ∀ (settings' : Settings) (m' : Memory), (s.length : Int) ≤ settings'.maxDepth →
          m'.cache.Sound →
            (alternatives s).mapM (fun t => (compile settings' t).outcome m') = .ok (branches x)
      else branches x = [x]) ∧
      Scan.run .start x = .start ∧
      (∀ front, front <+: x → 0 ≤ (Scan.run .start front).depth) ∧
      anchorAll x = List.intercalate ['|'] ((branches x).map anchorAll) ∧
      ∀ b ∈ branches x, ∃ k r, b = List.replicate k '(' ++ '/' :: r ∧
        anchorAll b = List.replicate k '(' ++ '.' :: '/' :: r := by
  obtain ⟨p, hp, rfl⟩ := exists_pattern_of_outcome hm hx
  have hsealed : ∀ c ∈ p, IsSealed c.xpath := fun c hc =>
    c.isSealed_xpath (everywhere_pattern (fun _ _ _ _ hread hl => hl.isSealed hread) hs hp c hc)
  have hpaths : ∀ t ∈ p.map Chain.xpath, IsSealed t := by
    intro t ht
    obtain ⟨c, hc, rfl⟩ := List.mem_map.1 ht
    exact hsealed c hc
  have hne : p ≠ [] := ne_nil_of_pattern hp
  -- Nothing in a path looks like a bar that separates, so that the branches are the paths again.
  have hbranches : branches p.xpath = p.map Chain.xpath :=
    branches_intercalate (by simpa using hne) hpaths
  have hanchor : ∀ t ∈ p.map Chain.xpath, anchorAll t = anchor t := by
    intro t ht
    rw [anchorAll, (hpaths t ht).branches]
    simp [List.intercalate]
  obtain ⟨hrun, hdepth⟩ := run_intercalate hpaths
  refine ⟨?_, hrun, hdepth, ?_, ?_⟩
  · split
    · next several =>
      intro settings' m' hd hm'
      rw [hbranches]
      exact mapM_outcome_alternatives hp several hd hm'
    · next single =>
      obtain ⟨c, -, rfl⟩ := exists_chain_of_pattern hp single
      rw [hbranches]
      simp [xpath, List.intercalate]
  · rw [hbranches, anchorAll, hbranches, List.map_congr_left hanchor]
  · intro b hb
    rw [hbranches] at hb
    obtain ⟨c, hc, rfl⟩ := List.mem_map.1 hb
    obtain ⟨k, r, hroot, hanchored⟩ := c.anchors_xpath
    exact ⟨k, r, hroot, by rw [hanchor _ hb, c.anchors_xpath.anchor_eq, hanchored]⟩

end Selector

/-! ## A sample -/

namespace Written

/-- A written chain holds no selectors if none of its pseudo-classes has an argument. -/
theorem not_holds_print {c : Chain}
    (h : ∀ d ∈ c.compounds, ∀ f ∈ d.pseudos, FunctionalPseudo.ofFragment? f = none) (t : Text) :
    ¬ Selector.Holds c.print t := by
  have hsingle : Selector.alternatives c.print = [c.print] := by
    have := alternatives_source c []
    rwa [alternativeSpans, furtherSpans, List.append_nil] at this
  intro ht
  cases ht with
  | alternative several => simp [hsingle] at several
  | argument single read compound_mem fragment_mem functional =>
    rw [tokens_print, c.readChain_tokens] at read
    cases read
    rw [h _ compound_mem _ fragment_mem] at functional
    cases functional

def firstOfTwo : Written where
  first := .start none (.tagged (.named ⟨['a'], nofun, eq_false_of_all (by decide)⟩) [])
  others := [.start none (.tagged (.named ⟨['b'], nofun, eq_false_of_all (by decide)⟩) [.static .first])]

example : firstOfTwo.print = "a, b:first".toList := by decide

theorem everywhere_isPlain_firstOfTwo :
    Selector.Everywhere Layout.IsPlain firstOfTwo.print := by
  have halternatives := alternatives_source firstOfTwo.first firstOfTwo.others
  refine Selector.everywhere_of_alternatives ?_ ?_
  · rw [print, halternatives]
    decide
  · rw [print, halternatives]
    intro t ht
    rcases List.mem_pair.1 ht with rfl | rfl
    · refine Selector.everywhere_of_layouts (not_holds_print (by decide)) fun token htoken => ?_
      rw [tokens_print] at htoken
      obtain rfl := List.mem_singleton.1 htoken
      exact ⟨⟨⟨[.plain 'a'], .inr (by decide)⟩, []⟩, rfl, by decide, by simp⟩
    · refine Selector.everywhere_of_layouts (not_holds_print (by decide)) fun token htoken => ?_
      rw [tokens_print] at htoken
      obtain rfl := List.mem_singleton.1 htoken
      exact ⟨⟨⟨[.plain 'b'], .inr (by decide)⟩, [.static ⟨"first".toList.map Span.plain, rfl⟩]⟩,
        rfl, by decide, by simp⟩

end Written

namespace Selector

theorem branches_outcome_firstOfTwo :
    Everywhere Layout.IsPlain Written.firstOfTwo.print ∧
      (compile {} Written.firstOfTwo.print).outcome {} = .ok "//a|(//b)[1]".toList ∧
      (alternatives Written.firstOfTwo.print).mapM (fun t => (compile {} t).outcome {}) =
        .ok (branches "//a|(//b)[1]".toList) := by
  have hplain := Written.everywhere_isPlain_firstOfTwo
  have hx : (compile {} Written.firstOfTwo.print).outcome {} = .ok "//a|(//b)[1]".toList :=
    outcome_of_nesting_le Written.firstOfTwo.pattern_print (by decide) Cache.sound_empty
  refine ⟨hplain, hx, ?_⟩
  have := (branches_outcome hplain Cache.sound_empty hx).1
  have hseveral : 1 < (alternatives Written.firstOfTwo.print).length := by
    rw [Written.print, Written.alternatives_source]
    decide
  rw [if_pos hseveral] at this
  exact this {} {} (by decide) Cache.sound_empty

end Selector

end TreeQuery
