import TreeQuery.Proofs.Branches.Groups

/-!
# Expressions from the context node

What a plain pattern is compiled to is made to begin at the context node branch by branch. Its
branches are the paths of its chains, and each of them goes on as before behind its new beginning.

Main statement: `anchorAll_xpath`.
-/

namespace TreeQuery

open XPath XPath.Expr

namespace Pattern

/-! ## Plain patterns are sealed

Names are made of characters that mean nothing to the scan, and texts have no apostrophe, so that
nothing plain opens or closes anything it does not close or open itself. The property has to hold at
every depth, since arguments of conditions are put into predicates; the lemmas follow the mutual
recursion of patterns, with one for each kind of part. -/

theorem isSealed_name {n : Text} (h : Text.isName n = true) : ∀ c ∈ n, isMark c = false :=
  fun c hc => isMark_eq_false (p := Text.isNamePart) (by decide)
    (List.all_eq_true.1 (Text.all_isNamePart h) c hc)

/-- A plain tag is a sealed test. -/
theorem isSealed_nameTest {tag : Text} (h : isPlainTag tag = true) : IsSealed (nameTest tag) := by
  rcases nameTest_cases h with ⟨he, -⟩ | ⟨he, -, hn⟩
  · rw [he]
    rfl
  · rw [he]
    exact .of_plain (isSealed_name hn)

/-- A plain test is a sealed predicate. -/
theorem isSealed_plainTest {t : AttributeTest} (h : t.isPlain = true) : IsSealed t.predicate := by
  rw [AttributeTest.isPlain, Bool.and_eq_true] at h
  refine AttributeTest.isSealed_predicate (isSealed_name h.1) fun o v hv => ?_
  have hvalue := h.2
  rw [hv] at hvalue
  simpa using hvalue

theorem noQuote_of_conditionsPlain {cs : List Condition} (h : conditionsPlain cs = true) {t : Text}
    (ht : .contains t ∈ cs) : '\'' ∉ t := by
  induction cs with
  | nil => cases ht
  | cons c r ih =>
    rw [conditionsPlain_cons, Bool.and_eq_true] at h
    rcases List.mem_cons.1 ht with rfl | ht
    · have hc : (!t.contains '\'') = true := h.1
      simpa using hc
    · exact ih h.2 ht

mutual

theorem Condition.everywhere_isSealed : ∀ c : Condition, c.isPlain = true →
    c.Everywhere Element.IsSealed
  | .static _, _ => trivial
  | .contains _, _ => trivial
  | .not cs, h => by
    rw [Condition.isPlain_not, Bool.and_eq_true] at h
    exact chainsEverywhere_isSealed cs h.2
  | .has rs, h => by
    rw [Condition.isPlain_has, Bool.and_eq_true] at h
    exact relativesEverywhere_isSealed rs h.2

theorem chainsEverywhere_isSealed : ∀ cs : List Chain, chainsPlain cs = true →
    chainsEverywhere Element.IsSealed cs
  | [], _ => trivial
  | c :: r, h => by
    rw [chainsPlain_cons, Bool.and_eq_true, Bool.and_eq_true] at h
    exact ⟨c.everywhere_isSealed h.1.1, chainsEverywhere_isSealed r h.2⟩

theorem relativesEverywhere_isSealed : ∀ rs : List Relative, relativesPlain rs = true →
    relativesEverywhere Element.IsSealed rs
  | [], _ => trivial
  | .mk _ c :: r, h => by
    rw [relativesPlain_cons, Bool.and_eq_true, Bool.and_eq_true] at h
    exact ⟨c.everywhere_isSealed h.1.1, relativesEverywhere_isSealed r h.2⟩

theorem conditionsEverywhere_isSealed : ∀ cs : List Condition, conditionsPlain cs = true →
    conditionsEverywhere Element.IsSealed cs
  | [], _ => trivial
  | c :: r, h => by
    rw [conditionsPlain_cons, Bool.and_eq_true] at h
    exact ⟨c.everywhere_isSealed h.1, conditionsEverywhere_isSealed r h.2⟩

theorem Element.everywhere_isSealed : ∀ e : Element, e.isPlain = true →
    e.Everywhere Element.IsSealed
  | .mk tag tests conditions, h => by
    rw [Element.isPlain_mk, Bool.and_eq_true, Bool.and_eq_true] at h
    refine ⟨⟨isSealed_nameTest h.1.1, fun t ht => ?_, fun t => noQuote_of_conditionsPlain h.2⟩,
      conditionsEverywhere_isSealed conditions h.2⟩
    exact isSealed_plainTest (List.all_eq_true.1 h.1.2 t ht)

/-- Nothing that a plain chain puts into an expression changes it. -/
theorem Chain.everywhere_isSealed : ∀ c : Chain, c.isPlain = true → c.Everywhere Element.IsSealed
  | .start _ e, h => e.everywhere_isSealed h
  | .link b _ e, h => by
    rw [Chain.isPlain_link, Bool.and_eq_true] at h
    exact ⟨b.everywhere_isSealed h.1, e.everywhere_isSealed h.2⟩

end

/-! ## Branches

Anchoring puts a point into each branch, and the branches are found from the text alone. As the
chains are sealed, they are the branches, and each anchored branch is the same chain with another
beginning. -/

/-- A path that is sealed and begins at the document is its own branch. -/
theorem anchorAll_intercalate {cs : List Chain} (hne : cs ≠ [])
    (h : ∀ c ∈ cs, IsSealed c.xpath) :
    anchorAll (List.intercalate ['|'] (cs.map Chain.xpath)) = anchoredXPath cs := by
  have hpaths : ∀ t ∈ cs.map Chain.xpath, IsSealed t := List.forall_mem_map.2 h
  rw [anchorAll, branches_intercalate (by simpa using hne) hpaths, List.map_map, anchoredXPath]
  exact congrArg _ (List.map_congr_left fun c _ => c.anchors_xpath.anchor_eq)

/-- Behind a point, chains that are read are read in the same way. -/
theorem reads_anchorAll_of_isRead {p : Pattern} (hne : p ≠ []) (hsealed : ∀ c ∈ p, IsSealed c.xpath)
    (hread : ∀ c ∈ p, c.IsRead) : Reads true 0 (anchorAll p.xpath) (anchoredExpr p) := by
  rw [xpath, anchorAll_intercalate hne hsealed]
  exact reads_anchoredXPath hne hread

/-- The expression of a plain pattern, made to begin at the context node. -/
theorem anchorAll_xpath {p : Pattern} (h : isPlain p = true) : anchorAll p.xpath = anchoredXPath p := by
  obtain ⟨hne, hchains⟩ := forall_of_isPlain h
  refine anchorAll_intercalate hne fun c hc => ?_
  exact c.isSealed_xpath (c.everywhere_isSealed (hchains c hc).1)

/-- It is read as the expression that begins at the context node. -/
theorem reads_anchorAll {p : Pattern} (h : isPlain p = true) :
    Reads true 0 (anchorAll p.xpath) (anchoredExpr p) := by
  obtain ⟨hne, hchains⟩ := forall_of_isPlain h
  rw [anchorAll_xpath h]
  exact reads_anchoredXPath hne fun c hc => c.isRead (hchains c hc).1

end Pattern

end TreeQuery
