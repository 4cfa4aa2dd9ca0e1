import TreeQuery.Proofs.Expression.Predicates

/-!
# Patterns that are read back

The expression of a plain pattern, as a text, is read as the expression that the pattern stands for.
A chain may begin in several ways, at the document or at an element; what follows its beginning is
always read in the same way. For that it is enough that the parts of its elements are.

Main statements: `Chain.leads` and `ofText?_xpath`.
-/

namespace TreeQuery

open XPath XPath.Expr

namespace Pattern

/-! ## The beginning of a chain

The slashes that a path begins with depend on where it stands: it begins at the document, at the
context node behind a point, or in an argument behind an axis. The path is therefore written with
any beginning, and all ways to write it are instances. The beginning of an unscoped chain is the
beginning of the text, and can be replaced; that of a scoped one is behind parentheses. -/

/-- The path of a chain with another beginning. -/
def Chain.xpathFrom (head : Text) : Chain → Text
  | .start _ e => e.appendTo head []
  | .link b combinator e =>
    if combinator = some .adjacent then
      if b.last.isResultScoped then
        e.appendTo (b.xpathFrom head ++ "/following-sibling::*[1]/self::".toList) []
      else
        e.appendTo (b.xpathFrom head ++ axis combinator)
          ("[preceding-sibling::*[1][self::".toList ++ b.lastTest ++ "]]".toList)
    else e.appendTo (b.xpathFrom head ++ axis combinator) []

theorem Chain.xpathFrom_adjacent (head : Text) (b : Chain) (e : Element) :
    (link b (some .adjacent) e).xpathFrom head =
      if b.last.isResultScoped then
        e.appendTo (b.xpathFrom head ++ "/following-sibling::*[1]/self::".toList) []
      else
        e.appendTo (b.xpathFrom head ++ axis (some .adjacent))
          ("[preceding-sibling::*[1][self::".toList ++ b.lastTest ++ "]]".toList) := rfl

/-- By itself a chain begins with the slashes of its opening. -/
theorem Chain.xpath_eq : ∀ c : Chain, c.xpath = c.xpathFrom (axis c.opening)
  | .start _ _ => rfl
  | .link b o e => by
    have h : (Chain.link b o e).xpath = if o = some .adjacent then
        if b.last.isResultScoped then
          e.appendTo (b.xpath ++ "/following-sibling::*[1]/self::".toList) []
        else
          e.appendTo (b.xpath ++ axis o)
            ("[preceding-sibling::*[1][self::".toList ++ b.lastTest ++ "]]".toList)
      else e.appendTo (b.xpath ++ axis o) [] := rfl
    rw [h, b.xpath_eq]
    rfl

/-- Without conditions on the whole result nothing is put in front. -/
theorem withConditions_eq {cs : List Condition} (h : cs.any Condition.isResultScoped = false)
    (path : Text) : withConditions path cs = path ++ cs.flatMap Condition.predicate := by
  induction cs generalizing path with
  | nil => simp [withConditions]
  | cons c r ih =>
    rw [List.any_cons, Bool.or_eq_false_iff] at h
    have hstep : withConditions path (c :: r) = withConditions (path ++ c.predicate) r := by
      show withConditions ((if c.isResultScoped then '(' :: path ++ [')'] else path)
        ++ c.predicate) r = _
      rw [h.1]
      rfl
    rw [hstep, ih h.2, List.flatMap_cons, List.append_assoc]

theorem Element.appendTo_append (a path nearest : Text) {e : Element}
    (h : e.isResultScoped = false) :
    e.appendTo (a ++ path) nearest = a ++ e.appendTo path nearest := by
  obtain ⟨tag, tests, conditions⟩ := e
  have h : conditions.any Condition.isResultScoped = false := h
  simp [Element.appendTo, withConditions_eq h]

/-- The beginning of an unscoped chain is in front of everything else. -/
theorem Chain.xpathFrom_append (a head : Text) : ∀ c : Chain, c.isUnscoped = true →
    c.xpathFrom (a ++ head) = a ++ c.xpathFrom head
  | .start _ e, h => e.appendTo_append a head [] (by simpa [isUnscoped] using h)
  | .link b o e, h => by
    rw [isUnscoped, Bool.and_eq_true, Bool.not_eq_true'] at h
    simp only [xpathFrom, b.xpathFrom_append a head h.1, List.append_assoc,
      e.appendTo_append _ _ _ h.2]
    split
    · split <;> rfl
    · rfl

theorem Element.exists_appendTo (path nearest : Text) {e : Element}
    (h : e.isResultScoped = false) :
    ∃ r, e.appendTo path nearest = path ++ (nameTest e.tag ++ r) := by
  obtain ⟨tag, tests, conditions⟩ := e
  have h : conditions.any Condition.isResultScoped = false := h
  simp [Element.appendTo, withConditions_eq h, Element.tag]

theorem Chain.exists_xpathFrom (head : Text) : ∀ c : Chain, c.isUnscoped = true →
    ∃ r, c.xpathFrom head = head ++ (nameTest c.first.tag ++ r)
  | .start _ e, h => e.exists_appendTo head [] (by simpa [isUnscoped] using h)
  | .link b o e, h => by
    rw [isUnscoped, Bool.and_eq_true, Bool.not_eq_true'] at h
    obtain ⟨r, hr⟩ := b.exists_xpathFrom head h.1
    rw [xpathFrom, hr]
    simp only [List.append_assoc, e.appendTo_append _ _ _ h.2]
    split
    · split <;> exact ⟨_, rfl⟩
    · exact ⟨_, rfl⟩

theorem head?_nameTest {tag : Text} (h : isPlainTag tag = true) (r : Text) :
    (nameTest tag ++ r).head? ≠ some '/' := by
  rw [isPlainTag, Bool.or_eq_true, Bool.or_eq_true] at h
  rcases h with (h | h) | h
  · simp [nameTest, h]
  · obtain rfl : tag = ['*'] := by simpa using h
    simp [nameTest]
  · cases tag with
    | nil => cases h
    | cons c t => exact head?_name h (by decide) r

theorem unrooted_append {s : Text} (h : s.head? ≠ some '/') {o : Option Combinator}
    (ho : (o == none || o == some .child) = true) : unrooted (axis o ++ s) = s := by
  have hs : Text.dropLeading '/' s = s := by
    cases s with
    | nil => rfl
    | cons c s =>
      have hc : c ≠ '/' := by simpa using h
      simp [Text.dropLeading, hc]
  have hslash (t : Text) : Text.dropLeading '/' ('/' :: t) = Text.dropLeading '/' t := by
    simp [Text.dropLeading]
  rw [Bool.or_eq_true, beq_iff_eq, beq_iff_eq] at ho
  rcases ho with rfl | rfl
  · show Text.dropLeading '/' ('/' :: '/' :: s) = s
    rw [hslash, hslash, hs]
  · show Text.dropLeading '/' ('/' :: s) = s
    rw [hslash, hs]

/-- A chain that can begin at an element does so on an axis that is put in front of it. -/
theorem Chain.append_unrooted (head : Text) {c : Chain}
    (hc : ∀ r, (nameTest c.first.tag ++ r).head? ≠ some '/') (h : c.beginsInside = true) :
    head ++ unrooted c.xpath = c.xpathFrom head := by
  rw [beginsInside, Bool.and_eq_true] at h
  obtain ⟨r, hr⟩ := c.exists_xpathFrom [] h.1
  have haxis := c.xpathFrom_append (axis c.opening) [] h.1
  have hhead := c.xpathFrom_append head [] h.1
  rw [List.append_nil] at haxis hhead
  rw [c.xpath_eq, haxis, unrooted_append ?_ h.2, hhead]
  rw [hr]
  exact hc r

theorem Element.append_unrooted (head : Text) {e : Element}
    (he : ∀ r, (nameTest e.tag ++ r).head? ≠ some '/') (h : e.isResultScoped = false) :
    head ++ unrooted (e.appendTo (axis none) []) = e.appendTo head [] :=
  Chain.append_unrooted head (c := .start none e) he
    (by simp [Chain.beginsInside, Chain.isUnscoped, Chain.opening, h])

/-! ## Elements

What has been read when the reader has come to some place is a stretch; whatever can go on there
goes on with the stretch. A test or a condition adds a predicate to it, and a condition on the whole
result puts it in parentheses first. An element is read as it is meant if its tag and all that it
adds are; how it got there is not asked. -/

/-- A plain tag stands for any element, or is a name. -/
theorem nameTest_cases {tag : Text} (h : isPlainTag tag = true) :
    (nameTest tag = ['*'] ∧ testOf tag = .anyName) ∨
      (nameTest tag = tag ∧ testOf tag = .name ⟨[], tag⟩ ∧ Text.isName tag = true) := by
  by_cases hany : (tag.isEmpty || tag == ['*']) = true
  · refine .inl ⟨?_, if_pos hany⟩
    rw [Bool.or_eq_true] at hany
    rcases hany with he | he
    · simp [nameTest, he]
    · obtain rfl : tag = ['*'] := by simpa using he
      rfl
  · rw [isPlainTag, Bool.or_eq_true] at h
    exact .inr ⟨if_neg fun he => hany (by simp [he]), if_neg hany, h.resolve_left hany⟩

theorem readsNodeTest_tag {tag : Text} (h : isPlainTag tag = true) :
    ReadsNodeTest (nameTest tag) (testOf tag) := by
  rcases nameTest_cases h with ⟨hn, ht⟩ | ⟨hn, ht, hname⟩
  · rw [hn, ht]
    exact readsNodeTest_star
  · rw [hn, ht]
    exact readsNodeTest_name hname

theorem readsTest_tag {tag : Text} (h : isPlainTag tag = true) :
    ReadsTest (nameTest tag) .child (testOf tag) := by
  rcases nameTest_cases h with ⟨hn, ht⟩ | ⟨hn, ht, hname⟩
  · rw [hn, ht]
    exact readsTest_star
  · rw [hn, ht]
    exact readsTest_name hname

/-- Tests that are read become predicates of the step. -/
theorem leads_tests {t : Text} {start : Expr} {axis : Axis} {test : NodeTest} {es : List Expr}
    {tests : List AttributeTest} (ht : ∀ t ∈ tests, ReadsPredicate t.predicate t.expr)
    (h : Leads t (.step start axis test es)) :
    Leads (t ++ tests.flatMap AttributeTest.predicate)
      (.step start axis test (es ++ tests.map AttributeTest.expr)) := by
  induction tests generalizing t es with
  | nil => simpa using h
  | cons a tests ih =>
    rw [List.forall_mem_cons] at ht
    have := ih ht.2 (h.given ht.1)
    simpa using this

/-- Conditions that are read are given to the stretch one after the other. -/
theorem leads_withConditions {cs : List Condition} {t : Text} {p : Stretch}
    (hcs : ∀ c ∈ cs, ReadsPredicate c.predicate c.expr) (h : Leads t p) :
    Leads (withConditions t cs) (givenAll p cs) := by
  induction cs generalizing t p with
  | nil => exact h
  | cons c r ih =>
    rw [List.forall_mem_cons] at hcs
    have hinner : Leads (if c.isResultScoped then '(' :: t ++ [')'] else t)
        (if c.isResultScoped then .set p.expr else p) := by
      split
      · exact h.enclosed
      · exact h
    exact ih hcs.2 (hinner.given hcs.1)

/-- An element whose tag, tests and conditions are read as they are meant. -/
structure Element.IsRead (e : Element) : Prop where
  tag : isPlainTag e.tag = true
  tests : ∀ t ∈ e.tests, ReadsPredicate t.predicate t.expr
  conditions : ∀ c ∈ e.conditions, ReadsPredicate c.predicate c.expr

theorem Element.IsRead.leads {e : Element} (he : e.IsRead) {t nearest : Text} {start : Expr}
    {axis : Axis} {es : List Expr}
    (h : Leads (t ++ nameTest e.tag ++ nearest) (.step start axis (testOf e.tag) es)) :
    Leads (e.appendTo t nearest) (e.stretch start axis es) := by
  obtain ⟨tag, tests, conditions⟩ := e
  exact leads_withConditions he.conditions (leads_tests he.tests h)

/-- What an element must be is read from the element itself. -/
theorem Element.IsRead.leads_self {e : Element} (he : e.IsRead) (h : e.isResultScoped = false) :
    Leads ("self::".toList ++ unrooted (e.appendTo (axis none) [])) (e.stretch .here .self []) := by
  rw [e.append_unrooted _ (head?_nameTest he.tag) h]
  exact he.leads (by rw [List.append_nil]; exact Leads.along .self (readsNodeTest_tag he.tag))

/-! ## Chains

A chain is read link by link, whatever it begins with. The hypothesis is about the first tag only,
which is read behind the beginning; each link then adds slashes or an axis, its own tag and its
predicates. -/

/-- The predicate that finds the nearest preceding sibling and tests it. -/
theorem readsPredicate_nearest {u : Text} {p : Stretch} (h : Leads ("self::".toList ++ u) p) :
    ReadsPredicate ("[preceding-sibling::*[1][self::".toList ++ u ++ "]]".toList)
      (.step .here .precedingSibling .anyName [.number (.whole 1), p.expr]) := by
  have hone : Reads true 0 ['1'] (.number (.whole 1)) := (ReadsPath.toDigits 1).operand (by decide)
  have hstep := (Leads.along .precedingSibling readsNodeTest_star).given ⟨['1'], rfl, hone⟩
  have := hstep.given ⟨_, rfl, h.path.operand (by decide)⟩
  refine ⟨_, ?_, this.path.operand (by decide)⟩
  have hopen : "[preceding-sibling::*[1][self::".toList = '[' :: (Axis.precedingSibling.name ++
      "::".toList ++ ['*'] ++ '[' :: (['1'] ++ [']']) ++ '[' :: "self::".toList) := rfl
  rw [hopen]
  simp

def Chain.IsRead : Chain → Prop
  | .start _ e => e.IsRead
  | .link b _ e => b.IsRead ∧ e.IsRead

theorem Chain.IsRead.last : ∀ {c : Chain}, c.IsRead → c.last.IsRead
  | .start _ _, h => h
  | .link _ _ _, h => h.2

theorem Chain.IsRead.isPlainTag_first : ∀ {c : Chain}, c.IsRead → isPlainTag c.first.tag = true
  | .start _ _, h => h.tag
  | .link _ _ _, h => h.1.isPlainTag_first

/-- What the element that a chain looks for must be is read from the element itself. -/
theorem Chain.IsRead.leads_last {c : Chain} (hc : c.IsRead) (h : c.last.isResultScoped = false) :
    Leads ("self::".toList ++ c.lastTest) c.lastStretch := by
  have := hc.last.leads_self h
  cases c <;> exact this

/-- Behind any beginning that its first tag can be read from, a chain is read as it is meant. -/
theorem Chain.leads : ∀ (c : Chain) {head : Text} {start : Expr} {a : Axis}, c.IsRead →
    Leads (head ++ nameTest c.first.tag) (.step start a (testOf c.first.tag) []) →
    Leads (c.xpathFrom head) (c.stretch start a)
  | .start o e, _, _, _, hc, h => hc.leads (by rw [List.append_nil]; exact h)
  | .link b o e, head, _, a, hc, h => by
    have hb := b.leads hc.1 h
    have hsibling := readsTest_along .followingSibling (readsNodeTest_tag hc.2.tag)
    have hself := readsTest_along .self (readsNodeTest_tag hc.2.tag)
    -- The combinators differ in the slashes and axes that they put behind what is there.
    cases o with
    | none =>
      refine hc.2.leads (t := b.xpathFrom head ++ axis none) ?_
      have hstep := hb.below (readsTest_tag hc.2.tag)
      rw [List.append_nil, List.append_assoc]
      exact hstep
    | some o =>
      cases o with
      | child =>
        refine hc.2.leads (t := b.xpathFrom head ++ axis (some .child)) ?_
        have hstep := hb.onward (readsTest_tag hc.2.tag)
        rw [List.append_nil, List.append_assoc]
        exact hstep
      | sibling =>
        refine hc.2.leads (t := b.xpathFrom head ++ axis (some .sibling)) ?_
        have hstep := hb.onward hsibling
        rw [List.append_nil, List.append_assoc]
        exact hstep
      | adjacent =>
        rw [Chain.xpathFrom_adjacent, Chain.stretch_adjacent]
        by_cases hscoped : b.last.isResultScoped = true
        · rw [if_pos hscoped, if_pos hscoped]
          refine hc.2.leads ?_
          have hone : Reads true 0 ['1'] (.number (.whole 1)) :=
            (ReadsPath.toDigits 1).operand (by decide)
          have hany := readsTest_along .followingSibling readsNodeTest_star
          have hstep := ((hb.onward hany).given ⟨['1'], rfl, hone⟩).onward hself
          have htext : b.xpathFrom head ++ "/following-sibling::*[1]/self::".toList ++
              nameTest e.tag ++ [] = b.xpathFrom head ++
                '/' :: (Axis.followingSibling.name ++ "::".toList ++ ['*']) ++
                '[' :: (['1'] ++ [']']) ++ '/' :: (Axis.self.name ++ "::".toList ++ nameTest e.tag) := by
            have hopen : "/following-sibling::*[1]/self::".toList =
                '/' :: (Axis.followingSibling.name ++ "::".toList ++ ['*']) ++
                '[' :: (['1'] ++ [']']) ++ '/' :: (Axis.self.name ++ "::".toList) := rfl
            rw [hopen]
            simp
          rw [htext]
          exact hstep
        · rw [if_neg hscoped, if_neg hscoped]
          refine hc.2.leads (t := b.xpathFrom head ++ axis (some .adjacent)) ?_
          have hlast := hc.1.leads_last (by simpa using hscoped)
          have hstep := (hb.onward hsibling).given (readsPredicate_nearest hlast)
          rw [List.append_assoc (b.xpathFrom head)]
          exact hstep

/-- The path of a chain from the document is read. -/
theorem Chain.readsPath (c : Chain) (hc : c.IsRead) (hr : c.beginsAtRoot = true) :
    ReadsPath true c.xpath c.pathExpr := by
  have htag := hc.isPlainTag_first
  have hsibling := readsTest_along .followingSibling (readsNodeTest_tag htag)
  rw [c.xpath_eq, pathExpr]
  cases ho : c.opening with
  | none => exact (c.leads hc (Leads.anywhere (readsTest_tag htag))).path
  | some o =>
    cases o with
    | child =>
      rw [beginsAtRoot, ho] at hr
      exact (c.leads hc (Leads.root (readsTest_tag htag) (by simpa using hr))).path
    | sibling => exact (c.leads hc (Leads.root hsibling rfl)).path
    | adjacent => exact (c.leads hc (Leads.root hsibling rfl)).path

/-- The path of a chain from the context node is read. -/
theorem Chain.readsPath_anchored (c : Chain) (hc : c.IsRead) :
    ReadsPath true (c.xpathFrom ('.' :: axis c.opening)) c.anchoredExpr := by
  have htag := hc.isPlainTag_first
  have hsibling := readsTest_along .followingSibling (readsNodeTest_tag htag)
  rw [anchoredExpr]
  cases c.opening with
  | none => exact (c.leads hc (Leads.belowPoint (readsTest_tag htag))).path
  | some o =>
    cases o with
    | child => exact (c.leads hc (Leads.inPoint (readsTest_tag htag))).path
    | sibling => exact (c.leads hc (Leads.inPoint hsibling)).path
    | adjacent => exact (c.leads hc (Leads.inPoint hsibling)).path

/-! ## Conditions

The chains of a condition are joined with `or`, and each of them begins at the element. The
induction over patterns ends here: a plain condition is read because its chains are, and these are
because their elements and the conditions in them are. -/

/-- Chains that can begin at an element are read as paths from it to itself. -/
theorem reads_selfPath {c : Chain} (hc : c.IsRead) (h : c.beginsInside = true) :
    Reads true 1 ("self::".toList ++ unrooted c.xpath) (c.stretch .here .self).expr := by
  rw [c.append_unrooted _ (head?_nameTest hc.isPlainTag_first) h]
  have := Leads.along .self (readsNodeTest_tag hc.isPlainTag_first)
  exact (c.leads hc this).path.operand (by decide)

/-- Chains that can begin at an element are read as paths down from it. -/
theorem reads_relativePath {c : Chain} (hc : c.IsRead) (h : c.beginsInside = true)
    (direct : Bool) : Reads true 1
      ((if direct then "child::".toList else "descendant::".toList) ++ unrooted c.xpath)
      (c.stretch .here (if direct then .child else .descendant)).expr := by
  rw [c.append_unrooted _ (head?_nameTest hc.isPlainTag_first) h]
  have htag := readsNodeTest_tag hc.isPlainTag_first
  cases direct with
  | true => exact (c.leads hc (Leads.along .child htag)).path.operand (by decide)
  | false => exact (c.leads hc (Leads.along .descendant htag)).path.operand (by decide)

/-- The predicate of `not` is read if all its paths are. -/
theorem readsPredicate_not {cs : List Chain} (hne : cs ≠ [])
    (h : List.Forall₂ (Reads true 1) (selfPaths cs) (selfExprs cs)) :
    ReadsPredicate (Condition.not cs).predicate (Condition.not cs).expr := by
  have hpaths : selfPaths cs ≠ [] := by
    cases cs with
    | nil => exact absurd rfl hne
    | cons => exact List.cons_ne_nil _ _
  have := ReadsPath.call (f := "not".toList) (by decide) (.one (Reads.anyOf h hpaths))
  refine ⟨_, ?_, this.toNamed.operand (by decide)⟩
  have hopen : "[not(".toList = '[' :: ("not".toList ++ ['(']) := rfl
  rw [Condition.predicate_not, hopen]
  simp

/-- The predicate of `has` is read if all its paths are. -/
theorem readsPredicate_has {rs : List Relative} (hne : rs ≠ [])
    (h : List.Forall₂ (Reads true 1) (relativePaths rs) (relativeExprs rs)) :
    ReadsPredicate (Condition.has rs).predicate (Condition.has rs).expr := by
  have hpaths : relativePaths rs ≠ [] := by
    cases rs with
    | nil => exact absurd rfl hne
    | cons r =>
      obtain ⟨direct, c⟩ := r
      exact List.cons_ne_nil _ _
  exact ⟨_, Condition.predicate_has rs, Reads.anyOf h hpaths⟩

/-- The predicate that finds a text among the text nodes. -/
theorem readsPredicate_contains {t : Text} (h : '\'' ∉ t) :
    ReadsPredicate (Condition.contains t).predicate (Condition.contains t).expr := by
  have htext : Leads "text()".toList (.step .here .child .text []) := by
    refine Leads.here readsTest_text fun r _ => ?_
    show beginsWithPrimary? ("text".toList ++ '(' :: ')' :: r) = _
    rw [beginsWithPrimary?_name rfl rfl, skip_cons rfl]
    rfl
  have hcall := ReadsPath.call (f := "contains".toList) (by decide)
    (AttributeTest.readsArguments_pair (g := []) readsPath_here rfl (ReadsPath.literal h))
  have := htext.given ⟨_, rfl, hcall.toNamed.operand (by decide)⟩
  refine ⟨_, ?_, this.path.operand (by decide)⟩
  have hopen : "[text()[contains(.,'".toList = '[' :: ("text()".toList ++ '[' ::
      ("contains".toList ++ '(' :: ['.', ',', '\''])) := rfl
  rw [Condition.predicate_contains, hopen]
  simp

mutual

theorem Condition.readsPredicate : ∀ c : Condition, c.isPlain = true →
    ReadsPredicate c.predicate c.expr
  | .static p, _ => p.readsPredicate
  | .contains t, h => by
    have h : (!t.contains '\'') = true := h
    exact readsPredicate_contains (by simpa using h)
  | .not cs, h => by
    rw [Condition.isPlain_not, Bool.and_eq_true] at h
    exact readsPredicate_not (by simpa using h.1) (reads_selfPaths cs h.2)
  | .has rs, h => by
    rw [Condition.isPlain_has, Bool.and_eq_true] at h
    exact readsPredicate_has (by simpa using h.1) (reads_relativePaths rs h.2)

theorem reads_selfPaths : ∀ cs : List Chain, chainsPlain cs = true →
    List.Forall₂ (Reads true 1) (selfPaths cs) (selfExprs cs)
  | [], _ => .nil
  | c :: r, h => by
    rw [chainsPlain_cons, Bool.and_eq_true, Bool.and_eq_true] at h
    exact .cons (reads_selfPath (c.isRead h.1.1) h.1.2) (reads_selfPaths r h.2)

theorem reads_relativePaths : ∀ rs : List Relative, relativesPlain rs = true →
    List.Forall₂ (Reads true 1) (relativePaths rs) (relativeExprs rs)
  | [], _ => .nil
  | .mk direct c :: r, h => by
    rw [relativesPlain_cons, Bool.and_eq_true, Bool.and_eq_true] at h
    exact .cons (reads_relativePath (c.isRead h.1.1) h.1.2 direct) (reads_relativePaths r h.2)

theorem readsPredicate_of_conditionsPlain : ∀ cs : List Condition, conditionsPlain cs = true →
    ∀ c ∈ cs, ReadsPredicate c.predicate c.expr
  | [], _ => nofun
  | c :: r, h => by
    rw [conditionsPlain_cons, Bool.and_eq_true] at h
    exact List.forall_mem_cons.2
      ⟨c.readsPredicate h.1, readsPredicate_of_conditionsPlain r h.2⟩

theorem Element.isRead : ∀ e : Element, e.isPlain = true → e.IsRead
  | .mk tag tests conditions, h => by
    rw [Element.isPlain_mk, Bool.and_eq_true, Bool.and_eq_true] at h
    exact ⟨h.1.1, fun t ht => AttributeTest.readsPredicate (List.all_eq_true.1 h.1.2 t ht),
      readsPredicate_of_conditionsPlain conditions h.2⟩

/-- The elements of a plain chain are read as they are meant. -/
theorem Chain.isRead : ∀ c : Chain, c.isPlain = true → c.IsRead
  | .start _ e, h => e.isRead h
  | .link b _ e, h => by
    rw [Chain.isPlain_link, Bool.and_eq_true] at h
    exact ⟨b.isRead h.1, e.isRead h.2⟩

end

/-! ## Patterns -/

/-- Paths with bars between them are read as their union. -/
theorem reads_union {c : Chain} {r : List Chain} {text : Chain → Text} {path : Chain → Expr}
    (h : ∀ b ∈ c :: r, ReadsPath true (text b) (path b)) :
    Reads true 0 (List.intercalate ['|'] ((c :: r).map text))
      ((r.map path).foldl (.binary .union) (path c)) := by
  have hall : List.Forall₂ (ReadsPath true) ((c :: r).map text) ((c :: r).map path) := by
    rw [List.forall₂_map_left_iff, List.forall₂_map_right_iff, List.forall₂_same]
    exact h
  exact (Reads.union hall).loose (Nat.zero_le 6) (Nat.le_refl 6)

theorem reads_xpath_of_isRead {p : Pattern} (hne : p ≠ [])
    (h : ∀ c ∈ p, c.IsRead ∧ c.beginsAtRoot = true) : Reads true 0 (xpath p) (expr p) := by
  cases p with
  | nil => exact absurd rfl hne
  | cons c r => exact reads_union fun b hb => b.readsPath (h b hb).1 (h b hb).2

theorem reads_xpath {p : Pattern} (h : isPlain p = true) : Reads true 0 (xpath p) (expr p) := by
  obtain ⟨hne, hchains⟩ := forall_of_isPlain h
  exact reads_xpath_of_isRead hne fun c hc => (hchains c hc).imp_left c.isRead

/-- The text of a plain pattern is read as the expression that the pattern stands for. -/
theorem ofText?_xpath {p : Pattern} (h : isPlain p = true) :
    Expr.ofText? (xpath p) = some (expr p) := (reads_xpath h).ofText?

def anchoredXPath (p : Pattern) : Text :=
  List.intercalate ['|'] (p.map fun c => c.xpathFrom ('.' :: axis c.opening))

theorem reads_anchoredXPath {p : Pattern} (hne : p ≠ []) (h : ∀ c ∈ p, c.IsRead) :
    Reads true 0 (anchoredXPath p) (anchoredExpr p) := by
  cases p with
  | nil => exact absurd rfl hne
  | cons c r => exact reads_union fun b hb => b.readsPath_anchored (h b hb)

end Pattern

end TreeQuery
