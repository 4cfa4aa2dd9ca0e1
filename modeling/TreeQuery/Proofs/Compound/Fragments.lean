import TreeQuery.Proofs.Compilation.Calls
import TreeQuery.Proofs.Compound.Escaped
import TreeQuery.Proofs.Pattern.Everywhere

/-!
# Fragments are understood

A compound keeps its items as fragments, which are read again when it is compiled. What is made of
an item is always a fragment that is read as this item: an argument is found again as it has been
written, and with its escapes resolved if it is a text. Every relation that a compound can have is
one that steps begin with. So compiling a selector comes to an expression, which begins with a slash
or a parenthesis, or to a fault of the selector; there is nothing between.

Main statement: `Selector.outcome_begins_or_fails`.
-/

namespace TreeQuery

open Pattern Compilation SelectorError

/-! ## The beginning of an expression

An expression begins as its first path does. Everything that is put behind a path leaves its
beginning as it is, but for the conditions on the whole result, which put a parenthesis in front. -/

namespace Pattern

/-- A text that begins as a path does, or as what encloses one. -/
def BeginsPath (x : Text) : Prop := ∃ r, x = '/' :: r ∨ x = '(' :: r

theorem BeginsPath.append {x : Text} (h : BeginsPath x) (y : Text) : BeginsPath (x ++ y) := by
  obtain ⟨r, rfl | rfl⟩ := h
  · exact ⟨r ++ y, .inl rfl⟩
  · exact ⟨r ++ y, .inr rfl⟩

theorem beginsPath_axis (o : Option Combinator) : BeginsPath (axis o) := by
  rcases o with _ | _ | _ | _ <;> exact ⟨_, .inl rfl⟩

theorem BeginsPath.withConditions {path : Text} (h : BeginsPath path) (cs : List Condition) :
    BeginsPath (withConditions path cs) := by
  induction cs generalizing path with
  | nil => exact h
  | cons c r ih =>
    apply ih
    apply BeginsPath.append
    split
    · exact ⟨path ++ [')'], .inr rfl⟩
    · exact h

theorem BeginsPath.appendTo {path : Text} (h : BeginsPath path) (nearest : Text) (e : Element) :
    BeginsPath (e.appendTo path nearest) := by
  obtain ⟨tag, tests, conditions⟩ := e
  apply BeginsPath.withConditions
  exact ((h.append _).append _).append _

/-- A path begins with the slashes of its first step, or with the parentheses around them. -/
theorem Chain.beginsPath_xpath : (c : Chain) → BeginsPath c.xpath
  | .start opening e => (beginsPath_axis opening).appendTo [] e
  | .link b combinator e => by
    have hb := b.beginsPath_xpath
    rw [Chain.xpath]
    split
    · split
      · exact (hb.append _).appendTo _ e
      · exact (hb.append _).appendTo _ e
    · exact (hb.append _).appendTo _ e

/-- The expression of a pattern begins as that of its first chain. -/
theorem beginsPath_xpath {p : Pattern} (h : p ≠ []) : BeginsPath p.xpath := by
  cases p with
  | nil => exact absurd rfl h
  | cons c r =>
    cases r with
    | nil =>
      rw [xpath, List.map_singleton, List.intercalate_singleton]
      exact c.beginsPath_xpath
    | cons d r =>
      rw [xpath, List.map_cons, List.map_cons, List.intercalate_cons_cons, List.append_assoc]
      exact c.beginsPath_xpath.append _

end Pattern

/-! ## Relations -/

/-- The beginnings of steps, by what is said of the relation. -/
def axisPrefixes : List (Option Text × Text) :=
  [(none, "//".toList), (some ['>'], "/".toList), (some ['~'], "/following-sibling::".toList),
    (some ['+'], "/following-sibling::".toList)]

/-- The beginning of a step is what the table has for the relation; only for a blank one it has
none. -/
theorem axis?_eq_lookup (r : Relation) : Compound.axis? r = axisPrefixes.lookup r.text? := by
  cases r with
  | unstated | blank => rfl
  | stated k => cases k <;> rfl

/-! ## Items

The compound is compiled from fragments, and a fragment that could not be read again would be a
fault of the program and not of the selector. Only the fragments of classes and identifiers can
fail, when the name in them has a quote. -/

/-- The fragment that is made of an item is read as the item again. That of a class or an identifier
can be at fault, but only for a quote in the name. -/
def Layout.Item.IsUnderstood : Layout.Item → Prop
  | .className n => ∀ e, attributePredicate ("class~=\"".toList ++ Span.text n.spans ++ ['"']) =
      .error e → ∃ c ∈ Span.text n.spans, AttributeTest.isQuote c = true
  | .identifier n => ∀ e, attributePredicate ("id=\"".toList ++ Span.text n.spans ++ ['"']) =
      .error e → ∃ c ∈ Span.text n.spans, AttributeTest.isQuote c = true
  | .attributeTest _ => True
  | .static n => FunctionalPseudo.ofFragment? (Text.lower (Span.text n.spans)) = none
  | .functional n a =>
    FunctionalPseudo.ofFragment? (n.pseudo.name ++ '(' :: Span.source a.spans ++ [')']) =
        some (n.pseudo, Span.source a.spans) ∧
      Span.resolve? (Span.source a.spans) = some a.spans

/-- No value is left only if a quote is. -/
theorem exists_isQuote_of_unquoted? {n : Text} (h : AttributeTest.unquoted? n = none) :
    ∃ c ∈ n, AttributeTest.isQuote c = true := by
  by_contra hnone
  have hall : ∀ c ∈ n, AttributeTest.isQuote c = false := fun c hc =>
    eq_false_of_ne_true fun hq => hnone ⟨c, hc, hq⟩
  rw [AttributeTest.unquoted?_eq_self_iff.2 hall] at h
  cases h

/-- Whatever has been read as an item is understood. -/
theorem Layout.Item.isUnderstood (i : Layout.Item) : i.IsUnderstood := by
  cases i with
  | className n =>
    intro e h
    rw [attributePredicate_className] at h
    split at h
    · next hnone => exact exists_isQuote_of_unquoted? hnone
    · cases h
    · cases h
  | identifier n =>
    intro e h
    rw [attributePredicate_identifier] at h
    split at h
    · next hnone => exact exists_isQuote_of_unquoted? hnone
    · cases h
  | attributeTest b => trivial
  | static n =>
    apply FunctionalPseudo.ofFragment?_eq_none
    exact Compound.notMem_of_namesPseudoClass n.names
  | functional n a =>
    have hne : Span.source a.spans ≠ [] := by
      intro h
      have hblank := a.notBlank
      rw [h] at hblank
      cases hblank
    exact ⟨FunctionalPseudo.ofFragment?_fragment _ hne, a.nested.resolve?_source⟩

/-! ## Selectors

Compounds are read from tokens, and no token is empty, so that no relation is blank. That the fault
of a blank relation does not come up at any level is kept along the compilation like any other
property of this kind; what is held by a selector is read from tokens again. -/

namespace Selector

/-- A blank relation is no fault of a text, and what goes on with another compilation has no faults
of its own. -/
theorem kept_ne_blankRelation : Kept fun α (a : Unit → Compilation α) =>
    ∀ m, (a ()).outcome m ≠ .error .blankRelation where
  pure _ _ := nofun
  fail e he m h := by
    cases h
    cases he
  bind {α β a k} ha hk m := by
    cases ho : (a ()).outcome m with
    | error e =>
      rw [outcome_bind_of_error ho]
      intro h
      cases h
      exact ha m ho
    | ok v =>
      rw [outcome_bind_of_ok ho]
      exact hk v _

/-- At no level is a selector compiled from a compound with a blank relation. -/
theorem outcome_compileAt_ne_blankRelation (useCache : Bool) (n d : Nat) (s : Text) (m : Memory) :
    (compileAt useCache n d s).outcome m ≠ .error .blankRelation := by
  induction n generalizing d s m with
  | zero => nofun
  | succ n ih =>
    have hu : ∀ m, (compileUncached (compileAt useCache n (d + 1)) s).outcome m ≠
        .error .blankRelation :=
      @Kept.compileUncached Unit _ (fun _ => compileAt useCache n (d + 1)) kept_ne_blankRelation s
        fun t _ m => ih (d + 1) t m
    cases useCache with
    | false =>
      rw [(run_compileAt_false n d s m).1]
      exact hu m
    | true =>
      cases hget : m.cache.get? s with
      | some x =>
        rw [(run_compileAt_of_get? hget).1]
        nofun
      | none =>
        rw [(run_compileAt_of_none hget).1]
        exact hu _

/-- Compiling a selector comes to an expression that begins with a slash or a parenthesis, or to a
fault of the selector. For in the compounds that tokens are read as, whatever the tokens are, every
relation begins a step, and every item is understood. -/
theorem outcome_begins_or_fails :
    (∀ (settings : Settings) (m : Memory), m.cache.Sound → ∀ s : Text,
      (∃ x, (compile settings s).outcome m = .ok x ∧ ∃ r, x = '/' :: r ∨ x = '(' :: r) ∨
        ∃ e : SelectorError, (compile settings s).outcome m = .error e ∧ e ≠ .blankRelation) ∧
    ∀ tokens cs, Compound.readChain tokens = .ok cs → ∀ c ∈ cs,
      c.relation.text? ∈ [none, some ['>'], some ['~'], some ['+']] ∧
      (∃ axis, Compound.axis? c.relation = some axis ∧
        axisPrefixes.lookup c.relation.text? = some axis) ∧
      ∃ token ∈ tokens, ∃ l : Layout, Span.resolve? token = some l.spans ∧
        c = l.compound c.relation ∧ ∀ i ∈ l.items, i.IsUnderstood := by
  refine ⟨fun settings m hm s => ?_, fun tokens cs hcs c hc => ?_⟩
  · cases h : (compile settings s).outcome m with
    | error e =>
      refine .inr ⟨e, rfl, ?_⟩
      rintro rfl
      exact outcome_compileAt_ne_blankRelation _ _ _ _ _ h
    | ok x =>
      obtain ⟨p, hp, rfl⟩ := exists_pattern_of_outcome hm h
      exact .inl ⟨_, rfl, beginsPath_xpath (ne_nil_of_pattern hp)⟩
  · have hblank := Compound.relation_ne_blank_of_mem_readAfter hcs hc
    have haxis := Compound.axis?_of_ne_blank hblank
    obtain ⟨before, token, htoken, hread⟩ := Compound.exists_of_mem_readAfter hcs hc
    obtain ⟨l, hl, hlayout⟩ := Compound.exists_layout_of_read hread
    refine ⟨?_, ⟨_, haxis, (axis?_eq_lookup c.relation).symm.trans haxis⟩, token, htoken, l, hl, ?_,
      fun i _ => i.isUnderstood⟩
    · cases hr : c.relation with
      | unstated => decide
      | blank => exact absurd hr hblank
      | stated k => cases k <;> decide
    · rw [Compound.relation_of_read hread, hlayout]

/-- A class with a quote in its name, whose fragment is at fault, and a text with an escape, whose
fragment is not. The fault is that of the class; without the class there is none. -/
theorem outcome_begins_or_fails_quoted :
    (∃ e : SelectorError, (compile {} "a.b\"c:CONTAINS(x\\)y)".toList).outcome {} = .error e ∧
      e = .malformedAttribute "class~=\"b\"c\"".toList) ∧
    (∃ x, (compile {} "a:CONTAINS(x\\)y)".toList).outcome {} = .ok x ∧
      (∃ r, x = '/' :: r ∨ x = '(' :: r) ∧ x = "//a[text()[contains(.,'x)y')]]".toList) ∧
    (∃ axis, Compound.axis? .unstated = some axis ∧ axisPrefixes.lookup none = some axis) ∧
    ∃ l : Layout, Span.resolve? "a.b\"c:CONTAINS(x\\)y)".toList = some l.spans ∧
      l.items.filterMap Layout.Item.attribute? = ["class~=\"b\"c\"".toList] ∧
      l.items.filterMap Layout.Item.pseudo? = ["contains(x\\)y)".toList] ∧
      ∀ i ∈ l.items, i.IsUnderstood := by
  have hm : (({} : Memory).cache).Sound := Cache.sound_empty
  have hread : Compound.readChain ["a.b\"c:CONTAINS(x\\)y)".toList] =
      .ok [⟨"a".toList, .unstated, ["class~=\"b\"c\"".toList],
        ["contains(x\\)y)".toList]⟩] := by decide +kernel
  have hfault : (compile {} "a.b\"c:CONTAINS(x\\)y)".toList).outcome {} =
      .error (.malformedAttribute "class~=\"b\"c\"".toList) := by decide +kernel
  have hfine : (compile {} "a:CONTAINS(x\\)y)".toList).outcome {} =
      .ok "//a[text()[contains(.,'x)y')]]".toList := by decide +kernel
  obtain ⟨hcompile, hcompounds⟩ := outcome_begins_or_fails
  obtain ⟨x, hx, hbegins⟩ := (hcompile {} {} hm "a:CONTAINS(x\\)y)".toList).resolve_right
    fun ⟨_, he, _⟩ => nomatch hfine.symm.trans he
  obtain ⟨e, he, -⟩ := (hcompile {} {} hm "a.b\"c:CONTAINS(x\\)y)".toList).resolve_left
    fun ⟨_, hx, _⟩ => nomatch hfault.symm.trans hx
  obtain ⟨-, haxis, token, htoken, l, hl, hc, hitems⟩ :=
    hcompounds _ _ hread _ List.mem_cons_self
  obtain rfl := List.mem_singleton.1 htoken
  have hattributes := congrArg Compound.attributes hc
  have hpseudos := congrArg Compound.pseudos hc
  exact ⟨⟨e, he, Except.error.inj (he.symm.trans hfault)⟩,
    ⟨x, hx, hbegins, Except.ok.inj (hx.symm.trans hfine)⟩, haxis, l, hl, hattributes.symm,
    hpseudos.symm, hitems⟩

end Selector

end TreeQuery
