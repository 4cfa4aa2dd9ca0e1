import TreeQuery.Proofs.Branches.Anchored
import TreeQuery.Proofs.Expression.Values
import TreeQuery.Proofs.Matching.Finding

/-!
# Compiled selectors are well formed

A selector whose names, values and texts cannot change an expression is compiled to an expression of
the language that denotes a set of nodes, and so is that expression where it is made to begin at the
context node. The names of operators and types of nodes are names of elements like any other.

Main statement: `Written.compile_denotesNodes`.
-/

namespace TreeQuery

open XPath XPath.Expr

/-- A text that is an expression of the language, and comes to a set of nodes in every document and
for every node of it. -/
structure XPath.DenotesNodes (t : Text) : Prop where
  isExpression : Grammar.IsExpression t
  nodes : ∃ e, Expr.ofText? t = some e ∧
    ∀ d : Document, d.IsTree → ∀ f : Focus, ∃ ns, eval d f e = some (.nodes ns)

/-! ## Characters

Two ranges have to be compared: the characters that markup may have, and those that the language
gives its expressions. Both leave out most control characters, the surrogates, which no character
is, and the two noncharacters at the end of the first plane. -/

/-- The characters with a place in markup are those of documents. -/
theorem isChar_of_isCompatible {c : Char} (h : isCompatible c = true) :
    Grammar.isChar c = true := by
  simp only [isCompatible, Text.isSpace, Bool.and_eq_true, Bool.or_eq_true, decide_eq_true_eq,
    bne_iff_ne, or_assoc] at h
  obtain ⟨⟨hlow, hE⟩, hF⟩ := h
  simp only [Grammar.isChar, Bool.or_eq_true, Bool.and_eq_true, decide_eq_true_eq, or_assoc]
  have hE : c.toNat ≠ 0xFFFE := fun he => hE (Char.toNat_inj.1 he)
  have hF : c.toNat ≠ 0xFFFF := fun he => hF (Char.toNat_inj.1 he)
  have hvalid : c.toNat < 0xD800 ∨ 0xDFFF < c.toNat ∧ c.toNat < 0x110000 := c.valid
  -- What is left are the tabs and the ends of lines, which both ranges list one by one.
  rcases hlow with hlow | rfl | rfl | rfl | rfl
  · by_cases hrange : c.toNat < 0xD800
    · exact .inr (.inr (.inr (.inl ⟨hlow, by omega⟩)))
    · by_cases hplane : c.toNat ≤ 0xFFFD
      · exact .inr (.inr (.inr (.inr (.inl ⟨by omega, hplane⟩))))
      · exact .inr (.inr (.inr (.inr (.inr ⟨by omega, by omega⟩))))
  · exact .inr (.inr (.inr (.inl ⟨by decide, by decide⟩)))
  · exact .inl rfl
  · exact .inr (.inl rfl)
  · exact .inr (.inr (.inl rfl))

namespace Pattern

/-! ## Values

That an expression comes to nodes in every document says more than that it is read: a union of
operands that are numbers would be read and come to nothing. The steps of a chain come to nodes
wherever they begin, by induction on the chain, and a union of expressions that come to nodes does
so by induction on the operands. -/

section

variable {d : Document}

/-- The steps of a chain come to nodes wherever they begin. -/
theorem Chain.exists_nodes_stretch (hd : d.IsTree) (c : Chain) {f : Focus} {start : Expr} {a : Axis}
    (hs : SameNodes d f f start) (ha : a ≠ .attributes) :
    ∃ ns, eval d f (c.stretch start a).expr = some (.nodes ns) := by
  obtain ⟨ns, -, hns, -⟩ := (c.settled hd hs ha).elements
  exact ⟨ns, hns⟩

/-- The path of a chain comes to nodes. -/
theorem Chain.exists_nodes_pathExpr (hd : d.IsTree) (c : Chain) (f : Focus) :
    ∃ ns, eval d f c.pathExpr = some (.nodes ns) := by
  have hroot : SameNodes d f f .root := ⟨_, rfl, rfl⟩
  rw [pathExpr]
  split
  · exact c.exists_nodes_stretch hd (sameNodes_descend hroot) (by decide)
  · exact c.exists_nodes_stretch hd hroot (by decide)
  · exact c.exists_nodes_stretch hd hroot (by decide)

/-- So does the path that begins at the context node. -/
theorem Chain.exists_nodes_anchoredExpr (hd : d.IsTree) (c : Chain) (f : Focus) :
    ∃ ns, eval d f c.anchoredExpr = some (.nodes ns) := by
  have hhere : SameNodes d f f .here := ⟨_, rfl, rfl⟩
  obtain ⟨ns, -, hns, -⟩ := c.sameElements_anchoredExpr hd hhere
  exact ⟨ns, hns⟩

/-- A union comes to nodes if each operand does. -/
theorem exists_nodes_union {f : Focus} {es : List Expr} {e : Expr}
    (h : ∀ a ∈ e :: es, ∃ ns, eval d f a = some (.nodes ns)) :
    ∃ ns, eval d f (es.foldl (.binary .union) e) = some (.nodes ns) := by
  induction es generalizing e with
  | nil => exact h e List.mem_cons_self
  | cons a es ih =>
    obtain ⟨ns, hns⟩ := h e List.mem_cons_self
    obtain ⟨ms, hms⟩ := h a (by simp)
    refine ih fun b hb => ?_
    rcases List.mem_cons.1 hb with rfl | hb
    · exact ⟨_, eval_union hns hms⟩
    · exact h b (List.mem_cons_of_mem _ (List.mem_cons_of_mem _ hb))

theorem exists_nodes_expr (hd : d.IsTree) (p : Pattern) (f : Focus) :
    ∃ ns, eval d f (expr p) = some (.nodes ns) := by
  cases p with
  | nil => exact ⟨_, rfl⟩
  | cons c r =>
    refine exists_nodes_union (List.forall_mem_cons.2 ⟨c.exists_nodes_pathExpr hd f, ?_⟩)
    exact List.forall_mem_map.2 fun b _ => b.exists_nodes_pathExpr hd f

theorem exists_nodes_anchoredExpr (hd : d.IsTree) (p : Pattern) (f : Focus) :
    ∃ ns, eval d f (anchoredExpr p) = some (.nodes ns) := by
  cases p with
  | nil => exact ⟨_, rfl⟩
  | cons c r =>
    refine exists_nodes_union (List.forall_mem_cons.2 ⟨c.exists_nodes_anchoredExpr hd f, ?_⟩)
    exact List.forall_mem_map.2 fun b _ => b.exists_nodes_anchoredExpr hd f

end

/-! ## Patterns

The two halves of the statement meet here. How a text is read tells both that it is derived by the
grammar and which expression it is, and the expression tells what the text comes to. -/

/-- A text that is read as an expression which comes to nodes everywhere denotes nodes. -/
theorem denotesNodes_of_reads {t : Text} {e : Expr} (h : Reads true 0 t e)
    (hc : t.all isCompatible = true)
    (hv : ∀ d : Document, d.IsTree → ∀ f : Focus, ∃ ns, eval d f e = some (.nodes ns)) :
    DenotesNodes t where
  isExpression := h.spells.isExpression (List.all_eq_true.2 fun c hm =>
    isChar_of_isCompatible (List.all_eq_true.1 hc c hm))
  nodes := ⟨e, h.ofText?, hv⟩

/-- The expression of a plain pattern whose values and texts have a place in markup denotes nodes,
and so it does from the context node. -/
theorem denotesNodes_xpath {p : Pattern} (hp : isPlain p = true)
    (hw : p.all Chain.isWritable = true) :
    DenotesNodes p.xpath ∧ DenotesNodes (anchorAll p.xpath) := by
  have hcompatible := all_isCompatible_xpath hp hw
  refine ⟨denotesNodes_of_reads (reads_xpath hp) hcompatible fun d hd => exists_nodes_expr hd p,
    denotesNodes_of_reads (reads_anchorAll hp) (all_isCompatible_anchorAll hcompatible)
      fun d hd => exists_nodes_anchoredExpr hd p⟩

end Pattern

namespace Written

/-- A written selector whose pattern is plain, with characters that have a place in markup, is
compiled to an expression that denotes nodes, in the whole document and from a context node. -/
theorem compile_denotesNodes (w : Written) (hplain : Pattern.isPlain w.pattern = true)
    (hw : w.pattern.all Pattern.Chain.isWritable = true) {settings : Settings}
    (hn : (w.pattern.nesting : Int) ≤ settings.maxDepth) {m : Memory} (hm : m.cache.Sound) :
    ∃ x, (Selector.compile settings w.print).outcome m = .ok x ∧ DenotesNodes x ∧
      DenotesNodes (anchorAll x) :=
  ⟨w.pattern.xpath, Selector.outcome_of_nesting_le w.pattern_print hn hm,
    Pattern.denotesNodes_xpath hplain hw⟩

/-! ## Samples -/

def ofTag (n : String) (hne : n.toList ≠ []) (h : n.toList.all (!Text.isBlank ·) = true)
    (items : List Item) : Compound :=
  .tagged (.named ⟨n.toList, hne, eq_false_of_all h⟩) items

def withId : Item :=
  have hplain : "id".toList.all isAttributeChar = true := by decide
  .attributeTest ⟨"id".toList, by decide, List.all_eq_true.1 hplain, by decide⟩ none

def ofOperators : Written where
  first := .link (.start (some .child) (ofTag "or" (by decide) (by decide) [.static .first]))
    (some .adjacent) (ofTag "div" (by decide) (by decide) [.not
      (.link (.start none (ofTag "mod" (by decide) (by decide) [])) (some .sibling)
        (ofTag "text" (by decide) (by decide) [])) []])
  others := [.start none (ofTag "node" (by decide) (by decide) [.has
    (.start none (ofTag "and" (by decide) (by decide) [withId])) []])]

example : ofOperators.print = "> or:first + div:not(mod ~ text), node:has(and[id])".toList := by
  decide

theorem compile_denotesNodes_ofOperators :
    Pattern.isPlain ofOperators.pattern = true ∧
    ofOperators.pattern.all Pattern.Chain.isWritable = true ∧ ofOperators.pattern.nesting ≤ 32 ∧
    ∃ x, (Selector.compile {} ofOperators.print).outcome {} = .ok x ∧ DenotesNodes x ∧
      DenotesNodes (anchorAll x) :=
  ⟨by decide, by decide, by decide,
    compile_denotesNodes ofOperators (by decide) (by decide) (by decide) Cache.sound_empty⟩

/-- A class whose name has no place in markup gives what is no expression of the language, and what
is not evaluated for that reason. -/
theorem compile_denotesNodes_fails :
    Pattern.isPlain noncharacter.pattern = true ∧
    ∃ x, (Selector.compile {} noncharacter.print).outcome {} = .ok x ∧
      ¬ Grammar.IsExpression x ∧ ¬ Grammar.IsExpression (anchorAll x) ∧
      ((NodeSet.ofDocument list true).find noncharacter.print).outcome {} =
        .error .incompatible := by
  have hcompile : (Selector.compile {} noncharacter.print).outcome {} =
      .ok noncharacter.pattern.xpath :=
    Selector.outcome_of_nesting_le noncharacter.pattern_print (by decide) Cache.sound_empty
  refine ⟨by decide, _, hcompile, fun h => absurd h.1 (by decide), fun h => absurd h.1 ?_, ?_⟩
  · rw [Pattern.anchorAll_xpath (by decide)]
    decide
  · rw [NodeSet.outcome_find rfl rfl, hcompile]
    rfl

end Written

end TreeQuery
