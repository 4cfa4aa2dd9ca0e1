import TreeQuery.Proofs.Compilation.Following

/-!
# The calls of a compilation

One selector is compiled by compiling the selectors that it holds, and what is put around them is
the same whoever compiles them. Several ways of compiling the same selector are looked at together,
as a family. A property of families that is kept when one compilation goes on with another holds of
the selector as soon as it holds of each selector that is held. What is put around them may be at
fault, but only for its text.

Main statements: `Kept.compileUncached`, and `Selector.compileUncached_congr`, a selector is
compiled from shorter ones only.
-/

namespace TreeQuery

open Compilation SelectorError

/-! ## Faults of reading

A fault of the text of a selector is found by reading it. Two faults are none of the text: that of
the limit, which only who compiles the selectors that are held can say, and a blank relation, which
no token states. Reading is followed function by function; each has its faults written down, and
goes on with what the one before has read. -/

namespace SelectorError

def isOfText : SelectorError → Bool
  | nestingTooDeep .. | blankRelation => false
  | _ => true

variable {α β : Type}

def OfText (r : Except SelectorError α) : Prop := ∀ e, r = .error e → e.isOfText = true

theorem ofText_ok (v : α) : OfText (.ok v) := nofun

theorem OfText.not_tooDeep {r : Except SelectorError α} (h : OfText r) : ¬ TooDeep r := by
  rintro ⟨s, d, hr⟩
  exact Bool.false_ne_true (h _ hr)

/-- What goes on with a result has faults of the text if both parts have. -/
theorem OfText.bind {r : Except SelectorError α} {k : α → Except SelectorError β} (h : OfText r)
    (hk : ∀ v, OfText (k v)) : OfText (r >>= k) := by
  cases r with
  | error e =>
    rintro e' he
    cases he
    exact h e rfl
  | ok v => exact hk v

theorem OfText.map {r : Except SelectorError α} (h : OfText r) (f : α → β) :
    OfText (r.map f) := by
  cases r with
  | error e =>
    rintro e' he
    cases he
    exact h e rfl
  | ok v => exact ofText_ok _

end SelectorError

namespace Compound

/-- Taking an item off the end is at fault in three ways, all for what stands there. -/
theorem ofText_readItem? (token : Text) (spans : List Span) : OfText (readItem? token spans) := by
  have functional : ∀ before, OfText (takeFunctional token before) := by
    intro before e h
    unfold takeFunctional at h
    dsimp only at h
    repeat' split at h
    all_goals cases h <;> rfl
  have bracket : ∀ before, OfText (takeBracket token before) := by
    intro before e h
    unfold takeBracket at h
    split at h <;> cases h
    rfl
  have named : ∀ delimiter name, OfText (namedItem token delimiter name) := by
    intro delimiter name e h
    unfold namedItem at h
    repeat' split at h
    all_goals cases h <;> rfl
  -- The kinds of items as the reader asks for them.
  unfold readItem?
  repeat' split
  · exact ofText_ok _
  · exact (functional _).map _
  · exact (bracket _).map _
  · exact ofText_ok _
  · exact (named _ _).map _

theorem ofText_readItems (token : Text) (spans : List Span) (items : List Item) :
    OfText (readItems token spans items) := by
  fun_induction readItems token spans items with
  | case1 spans items e he =>
    rintro e' h
    cases h
    exact ofText_readItem? token spans e he
  | case2 => exact ofText_ok _
  | case3 spans items item rest _ ih => exact ih

/-- A token is at fault for its escapes, for an item or for its tag. -/
theorem ofText_scan (relation : Relation) (token : Text) : OfText (scan relation token) := by
  unfold scan
  split
  · rintro e h
    cases h
    rfl
  · apply (ofText_readItems _ _ _).bind
    intro v
    refine OfText.bind ?_ fun _ => ofText_ok _
    intro e h
    unfold tagOf at h
    repeat' split at h
    all_goals cases h
    rfl

theorem ofText_readAfter (before : Option Text) (tokens : List Text) :
    OfText (readAfter before tokens) := by
  induction tokens generalizing before with
  | nil => exact ofText_ok _
  | cons token r ih =>
    have hread : OfText (read before token) := by
      unfold read
      repeat' split
      · exact ofText_ok _
      · exact ofText_ok _
      · exact (ofText_scan _ _).map _
    exact hread.bind fun c => (ih _).bind fun _ => ofText_ok _

theorem ofText_attributePredicate (fragment : Text) : OfText (attributePredicate fragment) := by
  unfold attributePredicate
  split
  · exact ofText_ok _
  · rintro e h
    cases h
    rfl

end Compound

/-! ## What is kept

What a proof about one compilation has to do is the same for all properties: to go through the code
part by part, and to show for each part that the property is kept. This is done once here, for
families of compilations indexed by any type. A property of a single compilation is one of a family
with one member; a property that compares two of them, as being equal or one repeating the other, is
one of a family with several. -/

/-- A property of families of compilations that results have, and faults of the text, and that is
kept when a compilation goes on with another. -/
structure Kept {ι : Type} (P : (α : Type) → (ι → Compilation α) → Prop) : Prop where
  pure : ∀ {α : Type} (a : α), P α fun _ => Pure.pure a
  fail : ∀ {α : Type} (e : SelectorError), e.isOfText = true → P α fun _ => Compilation.fail e
  bind : ∀ {α β : Type} {a : ι → Compilation α} {k : ι → α → Compilation β},
    P α a → (∀ v, P β fun i => k i v) → P β fun i => a i >>= k i

namespace Kept

variable {ι α β : Type} {P : (α : Type) → (ι → Compilation α) → Prop}
  {compile : ι → Text → Compilation Text}

theorem ofExcept (hP : Kept P) {r : Except SelectorError α} (h : OfText r) :
    P α fun _ => Compilation.ofExcept r := by
  cases r with
  | error e => exact hP.fail e (h e rfl)
  | ok v => exact hP.pure v

theorem map (hP : Kept P) {a : ι → Compilation α} (h : P α a) (f : α → β) :
    P β fun i => do return f (← a i) :=
  hP.bind h fun v => hP.pure (f v)

theorem mapM {τ : Type} (hP : Kept P) {l : List τ} {f : ι → τ → Compilation α}
    (h : ∀ t ∈ l, P α fun i => f i t) : P (List α) fun i => l.mapM (f i) := by
  induction l with
  | nil => exact hP.pure []
  | cons t r ih =>
    simp only [List.mapM_cons]
    apply hP.bind (h t List.mem_cons_self)
    intro v
    apply hP.bind (ih fun u hu => h u (List.mem_cons_of_mem _ hu))
    intro vs
    exact hP.pure (v :: vs)

/-! ## The parts of a selector

The lemmas follow the functions of the compiler from the inside out, and each takes the property for
the selectors in the arguments it reaches. At the outermost function these are the selectors that a
selector holds. The limit is not met in any of them, as only who compiles the held selectors can
meet it. -/

/-- The property holds of the compilations of all selectors in the argument of a fragment. -/
def InArgument (P : (α : Type) → (ι → Compilation α) → Prop) (compile : ι → Text → Compilation Text)
    (fragment : Text) : Prop :=
  ∀ p argument, FunctionalPseudo.ofFragment? fragment = some (p, argument) → p ≠ .contains →
    ∀ t ∈ Selector.alternatives argument, P Text fun i => compile i t

theorem apply (hP : Kept P) {fragment : Text} (h : InArgument P compile fragment)
    (tokens : List Text) : P _ fun i => Pseudo.apply (compile i) fragment tokens := by
  unfold Pseudo.apply
  split
  · next argument ha =>
    refine hP.map (hP.map (hP.mapM fun t ht => ?_) _) _
    exact hP.map (h _ _ ha nofun t ht) _
  · next argument ha =>
    unfold Pseudo.containsPredicate
    cases Span.resolve? argument with
    | none => exact hP.map (hP.fail (.unexpectedCharacter argument) rfl) _
    | some spans => exact hP.map (hP.pure _) _
  · next argument ha =>
    refine hP.map (hP.map (hP.mapM fun t ht => ?_) _) _
    exact hP.map (h _ _ ha nofun t ht) _
  · split
    · exact hP.fail _ rfl
    · exact hP.pure _

/-- Tests have no selectors in them. -/
theorem appendTests (hP : Kept P) (fs tokens : List Text) :
    P _ fun _ => Compound.appendTests fs tokens := by
  induction fs generalizing tokens with
  | nil => exact hP.pure tokens
  | cons f r ih =>
    exact hP.bind (hP.ofExcept (Compound.ofText_attributePredicate f)) fun p => ih _

/-- Conditions are put behind the tokens one after the other. -/
theorem appendPseudos (hP : Kept P) {fs : List Text} (h : ∀ f ∈ fs, InArgument P compile f)
    (tokens : List Text) : P _ fun i => Compound.appendPseudos (compile i) fs tokens := by
  induction fs generalizing tokens with
  | nil => exact hP.pure tokens
  | cons f r ih =>
    apply hP.bind (hP.apply (h f List.mem_cons_self) tokens)
    intro v
    exact ih (fun g hg => h g (List.mem_cons_of_mem _ hg)) _

/-- The property holds of the compilations of all selectors in the arguments of a compound. -/
def InCompound (P : (α : Type) → (ι → Compilation α) → Prop) (compile : ι → Text → Compilation Text)
    (c : Compound) : Prop :=
  ∀ f ∈ c.pseudos, InArgument P compile f

theorem appendItems (hP : Kept P) {c : Compound} (h : InCompound P compile c)
    (tokens : List Text) : P _ fun i => Compound.appendItems (compile i) c tokens :=
  hP.bind (hP.appendTests c.attributes tokens) fun tokens => hP.appendPseudos h tokens

/-- A step may repeat the tests of the compound before it, with the selectors in them. -/
theorem appendStep (hP : Kept P) {c : Compound} (hblank : c.relation ≠ .blank)
    (h : InCompound P compile c)
    {before : Option Compound} (hb : ∀ b ∈ before, InCompound P compile b) (tokens : List Text) :
    P _ fun i => Compound.appendStep (compile i) c before tokens := by
  unfold Compound.appendStep
  split
  · next b _ =>
    split
    · exact hP.appendItems h _
    · apply hP.bind (hP.map (hP.appendItems (hb b rfl) _) _)
      intro test
      exact hP.appendItems h _
  · rw [Compound.axis?_of_ne_blank hblank]
    exact hP.appendItems h _

/-- Each compound may have a part in the step of the one behind it. -/
theorem appendChain (hP : Kept P) {cs : List Compound} (hblank : ∀ c ∈ cs, c.relation ≠ .blank)
    (h : ∀ c ∈ cs, InCompound P compile c)
    {before : Option Compound} (hb : ∀ b ∈ before, InCompound P compile b) (tokens : List Text) :
    P _ fun i => Compound.appendChain (compile i) before cs tokens := by
  induction cs generalizing before tokens with
  | nil => exact hP.pure tokens
  | cons c r ih =>
    have hc := h c List.mem_cons_self
    apply hP.bind (hP.appendStep (hblank c List.mem_cons_self) hc hb tokens)
    intro tokens
    apply ih (fun d hd => hblank d (List.mem_cons_of_mem _ hd))
      fun d hd => h d (List.mem_cons_of_mem _ hd)
    intro b hb
    cases hb
    exact hc

/-- What holds of the compilations of all selectors that a selector holds, and is kept, holds of
its own. -/
theorem compileUncached (hP : Kept P) {s : Text}
    (h : ∀ t, Selector.Holds s t → P Text fun i => compile i t) :
    P Text fun i => Selector.compileUncached (compile i) s := by
  unfold Selector.compileUncached
  split
  · exact hP.fail (.emptySelector none) rfl
  · by_cases several : 1 < (Selector.alternatives s).length
    · simp only [if_pos several]
      exact hP.map (hP.mapM fun t ht => h t (.alternative several ht)) _
    · simp only [if_neg several]
      cases hr : Compound.readChain (Selector.tokens s) with
      | error e => exact hP.fail e (Compound.ofText_readAfter none (Selector.tokens s) e hr)
      | ok cs =>
        -- What stands in an argument of a compound is held by the selector.
        have hcs : ∀ c ∈ cs, InCompound P compile c :=
          fun c hc f hf p argument ha hp t ht => h t (.argument several hr hc hf ha hp ht)
        have hpath : P Text fun i => Compound.locationPath (compile i) cs :=
          hP.map (hP.appendChain
            (fun c hc => Compound.relation_ne_blank_of_mem_readAfter hr hc) hcs (by simp) []) _
        cases cs with
        | nil => exact hP.fail (.emptySelector (some s)) rfl
        | cons c r => exact hpath

end Kept

/-! ## Shorter selectors only

Whatever a selector holds is shorter than it is. So a way of compiling need only be known for
shorter selectors, which is what makes recursion on the length possible without any limit. -/

namespace Selector

/-- To be compiled alike is kept. -/
theorem kept_eq : Kept fun α (a : Bool → Compilation α) => a true = a false where
  pure _ := rfl
  fail _ _ := rfl
  bind {_ _ a k} h hk := by
    have hk : k true = k false := funext hk
    show a true >>= k true = a false >>= k false
    rw [h, hk]

/-- A selector is compiled from shorter ones: how any other one is compiled makes no difference. -/
theorem compileUncached_congr {compile compile' : Text → Compilation Text} {s : Text}
    (h : ∀ t : Text, t.length < s.length → compile t = compile' t) :
    compileUncached compile s = compileUncached compile' s := by
  let either : Bool → Text → Compilation Text := fun b => if b then compile else compile'
  have heither : ∀ t, Holds s t → either true t = either false t :=
    fun t ht => h t ht.length_lt
  exact @Kept.compileUncached Bool _ either kept_eq s heither

end Selector

end TreeQuery
