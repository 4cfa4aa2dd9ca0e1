import TreeQuery.Proofs.Compilation.Following

/-!
# The meaning of a compilation

A selector is compiled to the expression of its pattern. The steps of the compilation are taken one
by one, from the predicates of pseudo-classes to chains and alternatives; each is held against the
step of reading that belongs to it, provided that the selectors in arguments are compiled to the
expressions of their chains. Compilation puts an expression together from tokens; only the text that
they make up matters.

Main statement: `Selector.compileUncached_follows`.
-/

namespace TreeQuery

open Pattern

/-! ## Lists of results

What is compiled for a list is mapped over the readings of the list, so that the two ways to do so
in turn have to agree. -/

/-- To map each result of a list is to map the list of the results. -/
theorem Except.mapM_map {ε α β γ : Type} (l : List α) (f : α → Except ε β) (g : β → γ) :
    (l.mapM fun a => (f a).map g) = (l.mapM f).map (List.map g) := by
  induction l with
  | nil => rfl
  | cons a r ih =>
    rw [List.mapM_cons, List.mapM_cons, ih]
    cases f a with
    | error e => rfl
    | ok b => cases r.mapM f <;> rfl

theorem Except.map_map {ε α β γ : Type} (x : Except ε α) (f : α → β) (g : β → γ) :
    (x.map f).map g = x.map fun a => g (f a) := by
  cases x <;> rfl

theorem Except.map_bind_pure {ε α β γ : Type} (x : Except ε α) (f : α → β) (g : β → γ) :
    Except.map g (do return f (← x)) = x.map fun a => g (f a) := by
  cases x <;> rfl

namespace Pattern

theorem selfPaths_eq_map (cs : List Chain) :
    selfPaths cs = cs.map fun c => "self::".toList ++ unrooted c.xpath := by
  induction cs with
  | nil => rfl
  | cons c r ih => rw [selfPaths, ih, List.map_cons]

def Relative.path : Relative → Text
  | .mk direct c =>
    (if direct then "child::".toList else "descendant::".toList) ++ unrooted c.xpath

theorem relativePaths_eq_map (rs : List Relative) : relativePaths rs = rs.map Relative.path := by
  induction rs with
  | nil => rfl
  | cons r rs ih =>
    obtain ⟨direct, c⟩ := r
    rw [relativePaths, ih, List.map_cons, Relative.path]

/-- The first compound begins a chain, which the others extend. -/
theorem Chain.ofText_of_cons {nested : Text → Except SelectorError Chain} {s : Text}
    {c : TreeQuery.Compound} {r : List TreeQuery.Compound} (hs : ¬ Text.isAllBlank s = true)
    (hr : TreeQuery.Compound.readChain (Selector.tokens s) = .ok (c :: r)) :
    Chain.ofText nested s = (do
      Chain.extend nested (.start (combinator? c.relation) (← Element.read nested c)) r) := by
  rw [Chain.ofText, if_neg hs, hr]
  simp only [bind, Except.bind, Chain.read]
  cases Element.read nested c with
  | error e => rfl
  | ok e =>
    simp only
    cases Chain.extend nested (.start (combinator? c.relation) e) r <;> rfl

theorem Chain.lastTest_eq (c : Chain) :
    c.lastTest = unrooted (c.last.appendTo (axis none) []) := by
  cases c <;> rfl

/-! ## Conditions that select from the result

The compiler asks for the names of fragments where a pattern has conditions. Whether a condition
selects from the whole result is the same question in both. -/

/-- Only the fragments `first` and `last` are read as conditions that select from the result. -/
theorem Condition.isResultScoped_of_read {nested : Text → Except SelectorError Chain} {f : Text}
    {c : Condition} (h : Condition.read nested f = .ok c) :
    c.isResultScoped = (decide (f = StaticPseudo.first.name) || decide (f = StaticPseudo.last.name)) := by
  by_cases hf : f = StaticPseudo.first.name
  · subst hf
    rw [Condition.read_name] at h
    cases h; rfl
  · by_cases hl : f = StaticPseudo.last.name
    · subst hl
      rw [Condition.read_name] at h
      cases h; rfl
    · rw [decide_eq_false hf, decide_eq_false hl]
      match c, h with
      | .not _, _ => rfl
      | .has _, _ => rfl
      | .contains _, _ => rfl
      | .static p, h =>
        have := eq_name_of_read h
        subst this
        cases p <;> first | rfl | exact absurd rfl hf | exact absurd rfl hl

theorem any_isResultScoped_of_read {nested : Text → Except SelectorError Chain} {fs : List Text}
    {cs : List Condition} (h : fs.mapM (Condition.read nested) = .ok cs) :
    (fs.any fun f => f = StaticPseudo.first.name || f = StaticPseudo.last.name) =
      cs.any Condition.isResultScoped := by
  induction fs generalizing cs with
  | nil => cases h; rfl
  | cons f r ih =>
    rw [List.mapM_cons] at h
    obtain ⟨c, hf, h⟩ := Except.bind_eq_ok h
    obtain ⟨others, hr, h⟩ := Except.bind_eq_ok h
    cases h
    rw [List.any_cons, List.any_cons, ih hr, Condition.isResultScoped_of_read hf]

theorem Element.isResultScoped_of_read {nested : Text → Except SelectorError Chain}
    {c : TreeQuery.Compound} {e : Element} (h : Element.read nested c = .ok e) :
    c.isResultScoped = e.isResultScoped := by
  obtain ⟨tests, -, h⟩ := Except.bind_eq_ok h
  obtain ⟨conditions, hc, h⟩ := Except.bind_eq_ok h
  cases h
  exact any_isResultScoped_of_read hc

end Pattern

/-! ## Steps of a compilation

Each function of the compiler is compared with the function of patterns that writes the same text:
predicates of pseudo-classes, tests, conditions, steps and chains, from the inside out. The compiler
appends to a list of tokens, and the pattern to a text; the view of a list is the text it makes up.
Since the compilation with a cache and the one without keep different lists, every lemma takes two
of them that make up the same path. -/

section

variable {bound : Nat} {fits : Prop} {compile compile' : Text → Compilation Text}
  {nested : Text → Except SelectorError Chain}

/-- The selectors in some texts are compiled to the expressions of their chains. -/
def CompilesTo (bound : Nat) (fits : Prop) (compile compile' : Text → Compilation Text)
    (nested : Text → Except SelectorError Chain) (texts : List Text) : Prop :=
  ∀ t ∈ texts, Follows id bound fits (compile t) (compile' t) ((nested t).map Chain.xpath)

/-- The selectors in the argument of a fragment are compiled to the expressions of their chains. -/
def CompilesArgument (bound : Nat) (fits : Prop) (compile compile' : Text → Compilation Text)
    (nested : Text → Except SelectorError Chain) (fragment : Text) : Prop :=
  ∀ p argument, FunctionalPseudo.ofFragment? fragment = some (p, argument) → p ≠ .contains →
    CompilesTo bound fits compile compile' nested (Selector.alternatives argument)

namespace Pseudo

/-- The predicate of `not` is made of the paths of its alternatives. -/
theorem notPredicate_follows {argument : Text}
    (h : CompilesTo bound fits compile compile' nested (Selector.alternatives argument)) :
    Follows id bound fits (notPredicate compile argument) (notPredicate compile' argument)
      (((Selector.alternatives argument).mapM nested).map fun cs => (Condition.not cs).predicate) := by
  have hparts := Follows.mapM (l := Selector.alternatives argument)
    (g := fun t => ((nested t).map Chain.xpath).map fun x => "self::".toList ++ unrooted x)
    fun t ht => (h t ht).map fun x => "self::".toList ++ unrooted x
  simp only [Except.map_map, Except.mapM_map] at hparts
  have := hparts.map fun ts =>
    ("[not(".toList ++ List.intercalate " or ".toList ts ++ ")]".toList : Text)
  simp only [Except.map_map] at this
  simp only [Condition.predicate_not, selfPaths_eq_map]
  exact this

theorem path_of_read (t : Text) : (Relative.read nested t).map Relative.path =
    ((nested t).map Chain.xpath).map fun x => axisOf t ++ unrooted x := by
  rw [Relative.read]
  cases nested t <;> rfl

/-- The predicate of `has` is made of the paths of its alternatives. -/
theorem hasPredicate_follows {argument : Text}
    (h : CompilesTo bound fits compile compile' nested (Selector.alternatives argument)) :
    Follows id bound fits (hasPredicate compile argument) (hasPredicate compile' argument)
      (((Selector.alternatives argument).mapM (Relative.read nested)).map fun rs =>
        (Condition.has rs).predicate) := by
  have hparts := Follows.mapM (l := Selector.alternatives argument)
    (g := fun t => ((nested t).map Chain.xpath).map fun x => axisOf t ++ unrooted x)
    fun t ht => (h t ht).map fun x => axisOf t ++ unrooted x
  simp only [← path_of_read, Except.mapM_map] at hparts
  have := hparts.map fun ts => ('[' :: List.intercalate " or ".toList ts ++ [']'] : Text)
  simp only [Except.map_map] at this
  simp only [Condition.predicate_has, relativePaths_eq_map]
  exact this

/-- The predicate of `contains` is made of the text of its argument, without any selector. -/
theorem containsPredicate_follows (bound : Nat) (fits : Prop) (argument : Text) :
    Follows id bound fits (containsPredicate argument) (containsPredicate argument)
      (match Span.resolve? argument with
        | none => .error (.unexpectedCharacter argument)
        | some spans => .ok (Condition.contains (Span.text spans)).predicate) := by
  unfold containsPredicate
  cases Span.resolve? argument with
  | none => exact Follows.fail _
  | some spans => exact Follows.pure rfl rfl

def behind (r : Text × List Text) : Text := r.2.flatten ++ r.1

theorem behind_follows {a a' : Compilation Text} {p : Except SelectorError Text} {path : Text}
    (h : Follows id bound fits a a' p) {ts ts' : List Text} (hts : ts.flatten = path)
    (hts' : ts'.flatten = path) :
    Follows behind bound fits (a >>= fun x => pure (x, ts)) (a' >>= fun x => pure (x, ts'))
      (p.map (path ++ ·)) := by
  have : Follows behind bound fits (a >>= fun x => pure (x, ts)) (a' >>= fun x => pure (x, ts'))
      (p >>= fun x => Except.ok (path ++ x)) :=
    h.bind fun w _ v v' hv hv' =>
      Follows.pure (congrArg₂ (· ++ ·) hts hv) (congrArg₂ (· ++ ·) hts' hv')
  cases p with
  | error e => exact this
  | ok w => exact this

/-- A pseudo-class puts its condition behind what has been written. -/
theorem apply_follows {fragment path : Text}
    (h : CompilesArgument bound fits compile compile' nested fragment) {ts ts' : List Text}
    (hts : ts.flatten = path) (hts' : ts'.flatten = path) :
    Follows behind bound fits (apply compile fragment ts) (apply compile' fragment ts')
      ((Condition.read nested fragment).map fun c => withConditions path [c]) := by
  rw [Condition.read]
  unfold apply
  -- A fragment is one of the pseudo-classes with an argument, or one of those without, or unknown.
  cases hf : FunctionalPseudo.ofFragment? fragment with
  | none =>
    cases hs : StaticPseudo.ofName? fragment with
    | none => exact Follows.fail _
    | some p =>
      apply Follows.pure
      · cases p <;> simp [withConditions, Condition.isResultScoped, StaticPseudo.isResultScoped,
          Condition.predicate_static, behind, hts]
      · cases p <;> simp [withConditions, Condition.isResultScoped, StaticPseudo.isResultScoped,
          Condition.predicate_static, behind, hts']
  | some found =>
    obtain ⟨p, argument⟩ := found
    cases p with
    | not =>
      have := behind_follows (notPredicate_follows (h _ _ hf (by simp))) hts hts'
      rw [Except.map_map] at this
      show Follows behind bound fits _ _ (Except.map _ (do
        return Condition.not (← (Selector.alternatives argument).mapM nested)))
      rw [Except.map_bind_pure]
      exact this
    | contains =>
      have := behind_follows (containsPredicate_follows bound fits argument) hts hts'
      cases hr : Span.resolve? argument with
      | none => rw [hr] at this; simp only [hr]; exact this
      | some spans => rw [hr] at this; simp only [hr]; exact this
    | has =>
      have := behind_follows (hasPredicate_follows (h _ _ hf (by simp))) hts hts'
      rw [Except.map_map] at this
      show Follows behind bound fits _ _ (Except.map _ (do
        return Condition.has (← (Selector.alternatives argument).mapM (Relative.read nested))))
      rw [Except.map_bind_pure]
      exact this

end Pseudo

namespace Compound

/-- Tests are put behind a path one after the other. -/
theorem appendTests_follows (fs : List Text) {ts ts' : List Text} {path : Text}
    (hts : ts.flatten = path) (hts' : ts'.flatten = path) :
    Follows List.flatten bound fits (appendTests fs ts) (appendTests fs ts')
      ((fs.mapM readTest).map fun tests => path ++ tests.flatMap AttributeTest.predicate) := by
  induction fs generalizing ts ts' path with
  | nil =>
    show Follows _ _ _ _ _ (Except.ok (path ++ []))
    rw [List.append_nil]
    exact Follows.pure hts hts'
  | cons f r ih =>
    rw [List.mapM_cons]
    unfold appendTests attributePredicate readTest
    -- A test that cannot be read is a fault, in the pattern as in the compiler.
    cases AttributeTest.ofFragment? f with
    | none => exact Follows.fail_bind _ _ _
    | some t =>
      have := ih (show (ts ++ [t.predicate]).flatten = path ++ t.predicate by simp [hts])
        (show (ts' ++ [t.predicate]).flatten = path ++ t.predicate by simp [hts'])
      show Follows _ _ _ (pure t.predicate >>= fun p => appendTests r (ts ++ [p])) _
        (Except.map _ (do return t :: (← r.mapM readTest)))
      rw [Except.map_bind_pure]
      simp only [List.append_assoc] at this
      exact this

/-- Conditions are put behind a path one after the other. -/
theorem appendPseudos_follows {fs : List Text}
    (h : ∀ f ∈ fs, CompilesArgument bound fits compile compile' nested f) {ts ts' : List Text}
    {path : Text} (hts : ts.flatten = path) (hts' : ts'.flatten = path) :
    Follows List.flatten bound fits (appendPseudos compile fs ts) (appendPseudos compile' fs ts')
      ((fs.mapM (Condition.read nested)).map (withConditions path)) := by
  induction fs generalizing ts ts' path with
  | nil => exact Follows.pure hts hts'
  | cons f r ih =>
    have hf := Pseudo.apply_follows (h f List.mem_cons_self) hts hts'
    -- The path behind the first condition is the path in front of the others.
    have hr : Follows List.flatten bound fits
        (Pseudo.apply compile f ts >>= fun x => appendPseudos compile r (x.2 ++ [x.1]))
        (Pseudo.apply compile' f ts' >>= fun x => appendPseudos compile' r (x.2 ++ [x.1]))
        (((Condition.read nested f).map fun c => withConditions path [c]) >>= fun path =>
          (r.mapM (Condition.read nested)).map (withConditions path)) := by
      apply hf.bind
      intro w _ v v' hv hv'
      apply ih fun g hg => h g (List.mem_cons_of_mem _ hg)
      · rw [← hv]; simp [Pseudo.behind]
      · rw [← hv']; simp [Pseudo.behind]
    rw [List.mapM_cons]
    unfold appendPseudos
    cases hc : Condition.read nested f with
    | error e => rw [hc] at hr; exact hr
    | ok c =>
      rw [hc] at hr
      show Follows _ _ _ _ _ (Except.map _ (do return c :: (← r.mapM (Condition.read nested))))
      rw [Except.map_bind_pure]
      exact hr

/-- The tests and conditions of a compound are put behind the name that its step tests for. -/
theorem appendItems_follows {c : Compound}
    (h : ∀ f ∈ c.pseudos, CompilesArgument bound fits compile compile' nested f)
    {ts ts' : List Text} {path nearest : Text}
    (hts : ts.flatten = path ++ c.nameTest ++ nearest)
    (hts' : ts'.flatten = path ++ c.nameTest ++ nearest) :
    Follows List.flatten bound fits (appendItems compile c ts) (appendItems compile' c ts')
      ((Element.read nested c).map (Element.appendTo path nearest)) := by
  have : Follows List.flatten bound fits
      (appendTests c.attributes ts >>= appendPseudos compile c.pseudos)
      (appendTests c.attributes ts' >>= appendPseudos compile' c.pseudos)
      (((c.attributes.mapM readTest).map fun tests =>
        path ++ c.nameTest ++ nearest ++ tests.flatMap AttributeTest.predicate) >>= fun path =>
          (c.pseudos.mapM (Condition.read nested)).map (withConditions path)) :=
    (appendTests_follows c.attributes hts hts').bind fun w _ v v' hv hv' =>
      appendPseudos_follows h hv hv'
  rw [Element.read]
  unfold appendItems
  cases ht : c.attributes.mapM readTest with
  | error e => rw [ht] at this; exact this
  | ok tests =>
    rw [ht] at this
    show Follows _ _ _ _ _ (Except.map _ (do
      return Element.mk c.tag tests (← c.pseudos.mapM (Condition.read nested))))
    rw [Except.map_bind_pure]
    exact this

/-- The compound that is repeated as a test is written without the slashes. -/
theorem selfTest_follows {c : Compound}
    (h : ∀ f ∈ c.pseudos, CompilesArgument bound fits compile compile' nested f) :
    Follows id bound fits (selfTest compile c) (selfTest compile' c)
      ((Element.read nested c).map fun e => unrooted (e.appendTo (Pattern.axis none) [])) := by
  have ht (axis : Text) : [axis, c.nameTest].flatten = axis ++ c.nameTest ++ [] := by simp
  have := (appendItems_follows h (ht (Pattern.axis none)) (ht (Pattern.axis none))).map unrooted
  rw [Except.map_map] at this
  exact this

/-- Only the next sibling of what a compound before it asks for is a special case. -/
theorem appendStep_of_ordinary (compile : Text → Compilation Text) {c : Compound}
    {before : Option Compound} (h : c.relation ≠ .stated .adjacent ∨ before = none)
    (ts : List Text) :
    appendStep compile c before ts =
      match axis? c.relation with
      | none => .fail .blankRelation
      | some axis => appendItems compile c (ts ++ [axis, c.nameTest]) := by
  unfold appendStep
  split
  · next hr => exact absurd hr (by simpa using h)
  · rfl

/-- The step of the first compound of a chain. -/
theorem appendStep_none_follows {c : Compound} (hr : c.relation ≠ .blank)
    (h : ∀ f ∈ c.pseudos, CompilesArgument bound fits compile compile' nested f) :
    Follows List.flatten bound fits (appendStep compile c none []) (appendStep compile' c none [])
      ((Element.read nested c).map fun e => (Chain.start (combinator? c.relation) e).xpath) := by
  rw [appendStep_of_ordinary _ (.inr rfl), appendStep_of_ordinary _ (.inr rfl),
    axis?_of_ne_blank hr]
  simp only [Chain.xpath]
  exact appendItems_follows h (by simp) (by simp)

theorem combinator?_eq_adjacent {r : Relation} :
    combinator? r = some .adjacent ↔ r = .stated .adjacent := by
  cases r <;> simp [combinator?]

/-- The step of a compound behind another, which has been read. -/
theorem appendStep_some_follows {b c : Compound} {before : Chain} (hblank : c.relation ≠ .blank)
    (hb : Element.read nested b = .ok before.last)
    (hbs : ∀ f ∈ b.pseudos, CompilesArgument bound fits compile compile' nested f)
    (h : ∀ f ∈ c.pseudos, CompilesArgument bound fits compile compile' nested f)
    {ts ts' : List Text} (hts : ts.flatten = before.xpath) (hts' : ts'.flatten = before.xpath) :
    Follows List.flatten bound fits (appendStep compile c (some b) ts)
      (appendStep compile' c (some b) ts')
      ((Element.read nested c).map fun e =>
        (Chain.link before (combinator? c.relation) e).xpath) := by
  simp only [Chain.xpath, combinator?_eq_adjacent]
  -- Three ways to write the step, as for paths of patterns.
  by_cases hr : c.relation = .stated .adjacent
  · rw [← Element.isResultScoped_of_read hb]
    simp only [hr, if_true]
    unfold appendStep
    rw [hr]
    simp only
    split
    · exact appendItems_follows h (by simp [hts]) (by simp [hts'])
    · -- The compound in front is compiled a second time, as the test of the previous sibling.
      have ht := selfTest_follows hbs
      rw [hb] at ht
      rw [Chain.lastTest_eq]
      refine ht.bind (q := fun test => (Element.read nested c).map (Element.appendTo
        (before.xpath ++ Pattern.axis (combinator? (.stated .adjacent)))
        ("[preceding-sibling::*[1][self::".toList ++ test ++ "]]".toList))) ?_
      intro w _ v v' hv hv'
      subst hv
      obtain rfl : v' = v := hv'
      have hstep {ts : List Text} (hts : ts.flatten = before.xpath) (axis nearest : Text) :
          (ts ++ [axis, c.nameTest, nearest]).flatten =
            before.xpath ++ axis ++ c.nameTest ++ nearest := by
        simp [hts]
      exact appendItems_follows h (hstep hts _ _) (hstep hts' _ _)
  · simp only [if_neg hr]
    rw [appendStep_of_ordinary _ (.inl hr), appendStep_of_ordinary _ (.inl hr),
      axis?_of_ne_blank hblank]
    exact appendItems_follows h (by simp [hts]) (by simp [hts'])

/-- The steps of the compounds behind another, which has been read. -/
theorem appendChain_some_follows {b : Compound} {cs : List Compound} {before : Chain}
    (hb : Element.read nested b = .ok before.last)
    (hbs : ∀ f ∈ b.pseudos, CompilesArgument bound fits compile compile' nested f)
    (hblank : ∀ c ∈ cs, c.relation ≠ .blank)
    (h : ∀ c ∈ cs, ∀ f ∈ c.pseudos, CompilesArgument bound fits compile compile' nested f)
    {ts ts' : List Text} (hts : ts.flatten = before.xpath) (hts' : ts'.flatten = before.xpath) :
    Follows List.flatten bound fits (appendChain compile (some b) cs ts)
      (appendChain compile' (some b) cs ts')
      ((Chain.extend nested before cs).map Chain.xpath) := by
  induction cs generalizing b before ts ts' with
  | nil => exact Follows.pure hts hts'
  | cons c r ih =>
    have hc := h c List.mem_cons_self
    have hs := appendStep_some_follows (hblank c List.mem_cons_self) hb hbs hc hts hts'
    unfold appendChain Chain.extend
    -- A compound that cannot be read ends the chain with its fault.
    cases he : Element.read nested c with
    | error e =>
      rw [he] at hs
      exact hs.bind (q := fun _ => .ok []) fun _ hw => by cases hw
    | ok e =>
      rw [he] at hs
      apply hs.bind (q := fun _ =>
        (Chain.extend nested (.link before (combinator? c.relation) e) r).map Chain.xpath)
      intro w hw v v' hv hv'
      obtain rfl := Except.ok.inj hw
      exact ih he hc (fun d hd => hblank d (List.mem_cons_of_mem _ hd))
        (fun d hd => h d (List.mem_cons_of_mem _ hd)) hv hv'

/-- The location path of a chain is the expression of the chain that it is read into. -/
theorem locationPath_follows {c : Compound} {cs : List Compound}
    (hblank : ∀ d ∈ c :: cs, d.relation ≠ .blank)
    (h : ∀ d ∈ c :: cs, ∀ f ∈ d.pseudos, CompilesArgument bound fits compile compile' nested f) :
    Follows id bound fits (locationPath compile (c :: cs)) (locationPath compile' (c :: cs))
      (Except.map Chain.xpath (do
        Chain.extend nested (.start (combinator? c.relation) (← Element.read nested c)) cs)) := by
  have hc := h c List.mem_cons_self
  have hs := appendStep_none_follows (hblank c List.mem_cons_self) hc
  have : Follows List.flatten bound fits (appendChain compile none (c :: cs) [])
      (appendChain compile' none (c :: cs) [])
      (Except.map Chain.xpath (do
        Chain.extend nested (.start (combinator? c.relation) (← Element.read nested c)) cs)) := by
    unfold appendChain
    cases he : Element.read nested c with
    | error e =>
      rw [he] at hs
      exact hs.bind (q := fun _ => .ok []) fun _ hw => by cases hw
    | ok e =>
      rw [he] at hs
      apply hs.bind (q := fun _ =>
        (Chain.extend nested (.start (combinator? c.relation) e) cs).map Chain.xpath)
      intro w hw v v' hv hv'
      obtain rfl := Except.ok.inj hw
      exact appendChain_some_follows he hc (fun d hd => hblank d (List.mem_cons_of_mem _ hd))
        (fun d hd => h d (List.mem_cons_of_mem _ hd)) hv hv'
  have := this.map id
  rw [Except.map_id] at this
  exact this

end Compound

end

namespace Selector

theorem map_xpath_singleton (r : Except SelectorError Chain) :
    (r.map ([·])).map Pattern.xpath = r.map Chain.xpath := by
  cases r with
  | error e => rfl
  | ok c => simp [Except.map, Pattern.xpath]

/-- What a selector holds has the expression of its chain. -/
theorem Holds.expression_eq {s t : Text} (h : Holds s t) :
    expression t = (chain t).map Chain.xpath := by
  rw [expression, h.pattern_eq, map_xpath_singleton]

/-- A selector is compiled to its expression, provided that what it holds is. -/
theorem compileUncached_follows {bound : Nat} {fits : Prop}
    {compile compile' : Text → Compilation Text} {s : Text}
    (h : ∀ t, Holds s t → Follows id bound fits (compile t) (compile' t) (expression t)) :
    Follows id bound fits (compileUncached compile s) (compileUncached compile' s)
      (expression s) := by
  have hheld : ∀ t, Holds s t →
      Follows id bound fits (compile t) (compile' t) ((chain t).map Chain.xpath) := by
    intro t ht
    rw [← ht.expression_eq]
    exact h t ht
  unfold compileUncached expression pattern
  split
  · exact Follows.fail_bind _ _ _
  · next hblank =>
    by_cases hs : 1 < (alternatives s).length
    · simp only [if_pos hs]
      -- Several alternatives are compiled one by one and joined with bars.
      have hparts := Follows.mapM (l := alternatives s) (g := fun t => (chain t).map Chain.xpath)
        fun t ht => hheld t (.alternative hs ht)
      rw [Except.mapM_map] at hparts
      have := hparts.map fun ts => (List.intercalate ['|'] ts : Text)
      rw [Except.map_map] at this
      exact this
    · simp only [if_neg hs]
      rw [map_xpath_singleton, chain_eq, Chain.ofText, if_neg hblank]
      cases hr : Compound.readChain (tokens s) with
      | error e => exact Follows.fail_bind _ _ _
      | ok cs =>
        cases cs with
        | nil => exact Follows.fail _
        | cons c r =>
          -- What stands in the arguments of the compounds is held by the selector.
          have hargs : ∀ d ∈ c :: r, ∀ f ∈ d.pseudos,
              CompilesArgument bound fits compile compile' chain f :=
            fun d hd f hf p argument ha hp t ht => hheld t (.argument hs hr hd hf ha hp ht)
          have := Compound.locationPath_follows
            (fun d hd => Compound.relation_ne_blank_of_mem_readAfter hr hd) hargs
          rw [← Chain.ofText_of_cons hblank hr, Chain.ofText, if_neg hblank, hr] at this
          exact this

end Selector

end TreeQuery
