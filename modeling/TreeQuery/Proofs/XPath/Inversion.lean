import TreeQuery.Proofs.XPath.Reading

/-!
# How the readers have given something

The rules for the readers, the other way round. If a reader has succeeded on a text that begins in
a certain way, then it took the one way that is left for such a text, and its parts have succeeded.
Where a reader stops, no rule is needed: a reader gives one thing only.

Main statements: `Gives.unique`, and `head?_of_gives_steps`, no slash is left behind steps.
-/

namespace TreeQuery.XPath.Expr

section

variable {α : Type} {P : Text → Prop} {result : Option (α × { r : Text // P r })} {a b : α}
  {r r' : Text}

/-- A reader gives one thing and leaves one rest. -/
theorem Gives.unique (h : Gives result a r) (h' : Gives result b r') : a = b ∧ r = r' := by
  obtain ⟨p, hp⟩ := h
  obtain ⟨q, hq⟩ := h'
  cases hp.symm.trans hq
  exact ⟨rfl, rfl⟩

/-- The reader of an axis and a test gives one thing and leaves one rest. -/
theorem GivesTest.unique {result : Option (Axis × NodeTest × { r : Text // P r })}
    {axis axis' : Axis} {test test' : NodeTest} (h : GivesTest result axis test r)
    (h' : GivesTest result axis' test' r') : axis = axis' ∧ test = test' ∧ r = r' := by
  obtain ⟨p, hp⟩ := h
  obtain ⟨q, hq⟩ := h'
  cases hp.symm.trans hq
  exact ⟨rfl, rfl, rfl⟩

end

/-- A character that is taken was there. -/
theorem eq_of_take? {c : Char} {s : Text} {r : Shorter s} (h : Text.take? c s = some r) :
    s = c :: r.val := by
  cases s with
  | nil => cases h
  | cons d s =>
    rw [Text.take?] at h
    split at h
    · next hd =>
      cases h
      rw [hd]
    · cases h

/-! ## Levels

What has been read of an operand, level by level. Each lemma names the readers that were called, in
their order, with the texts that they left. -/

section

variable {signs : List Sign} {ls : List (List Sign)} {s r r' : Text} {a e : Expr}

theorem of_gives_level_nil (h : Gives (readLevel [] s) e r) : Gives (readUnary none s) e r := by
  rwa [readLevel] at h

theorem of_gives_level_cons (h : Gives (readLevel (signs :: ls) s) e r') :
    ∃ a r, Gives (readLevel ls s) a r ∧ Gives (readChain signs ls a r) e r' := by
  obtain ⟨_, h⟩ := h
  rw [readLevel] at h
  split at h
  · cases h
  · next a r p ha =>
    split at h
    · next he =>
      cases h
      exact ⟨a, r, ⟨p, ha⟩, _, he⟩
    · cases h

theorem of_gives_chain_step {o : Operator} (h : Gives (readOperator? signs (skip s).val) o r)
    (he : Gives (readChain signs ls a s) e r') : ∃ b r'', Gives (readLevel ls r) b r'' ∧
      Gives (readChain signs ls (.binary o a b) r'') e r' := by
  rcases hs : skip s with ⟨t, ht⟩
  rw [hs] at h
  obtain ⟨p, hp⟩ := h
  obtain ⟨_, he⟩ := he
  rw [readChain, hs] at he
  simp only [hp] at he
  split at he
  · cases he
  · next b r'' q hb =>
    split at he
    · next hc =>
      cases he
      exact ⟨b, r'', ⟨q, hb⟩, _, hc⟩
    · cases he

theorem of_gives_unary (hs : (skip s).val.head? ≠ some '-') (h : Gives (readUnary none s) e r) :
    Gives (readUnion s) e r := by
  obtain ⟨_, h⟩ := h
  rw [readUnary, next?_eq_none hs] at h
  simp only at h
  split at h
  · next hu =>
    cases h
    exact ⟨_, hu⟩
  · cases h

theorem of_gives_union (h : Gives (readUnion s) e r') :
    ∃ a r, Gives (readPath s) a r ∧ Gives (readBranches a r) e r' := by
  obtain ⟨_, h⟩ := h
  rw [readUnion] at h
  split at h
  · cases h
  · next a r p ha =>
    split at h
    · next he =>
      cases h
      exact ⟨a, r, ⟨p, ha⟩, _, he⟩
    · cases h

theorem of_gives_branches_step (hs : (skip s).val = '|' :: r)
    (h : Gives (readBranches a s) e r') : ∃ b r'', Gives (readPath r) b r'' ∧
      Gives (readBranches (.binary .union a b) r'') e r' := by
  obtain ⟨p, hp⟩ := next?_of_skip hs
  obtain ⟨_, h⟩ := h
  rw [readBranches, hp] at h
  simp only at h
  split at h
  · cases h
  · next b r'' q hb =>
    split at h
    · next hc =>
      cases h
      exact ⟨b, r'', ⟨q, hb⟩, _, hc⟩
    · cases h

end

/-! ## Paths

How a path was read is told from its first character behind white space, and how it went on from the
characters behind each part. Where one slash and two have to be told apart, the hypothesis on the
next character does so. -/

section

variable {s r r' : Text} {a e : Expr}

theorem of_gives_path_of_primary (hs : beginsWithPrimary? (skip s).val = some true)
    (h : Gives (readPath s) e r) : ∃ a r' b r'', Gives (readPrimary (skip s).val) a r' ∧
      Gives (readFilters a r') b r'' ∧ Gives (readSlashes b r'') e r := by
  rcases hk : skip s with ⟨t, ht⟩
  rw [hk] at hs
  obtain ⟨_, h⟩ := h
  rw [readPath, hk] at h
  simp only [hs] at h
  split at h
  · cases h
  · next a r' p ha =>
    split at h
    · cases h
    · next b r'' q hb =>
      split at h
      · next he =>
        cases h
        exact ⟨a, r', b, r'', ⟨p, ha⟩, ⟨q, hb⟩, _, he⟩
      · cases h

theorem of_gives_path_of_slash (hs : (skip s).val = '/' :: r) (h : Gives (readPath s) e r') :
    Gives (readAfterSlash .root r) e r' := by
  rcases hk : skip s with ⟨t, ht⟩
  rw [hk] at hs
  subst hs
  obtain ⟨p, hp⟩ := take?_cons '/' r
  have hb : beginsWithPrimary? ('/' :: r) = some false := rfl
  obtain ⟨_, h⟩ := h
  rw [readPath, hk] at h
  simp only [hb, hp] at h
  split at h
  · next he =>
    cases h
    exact ⟨_, he⟩
  · cases h

theorem of_gives_path_of_step (hs : beginsWithPrimary? (skip s).val = some false)
    (hn : (skip s).val.head? ≠ some '/') (h : Gives (readPath s) e r) :
    Gives (readRelative .here (skip s).val) e r := by
  rcases hk : skip s with ⟨t, ht⟩
  rw [hk] at hs hn
  obtain ⟨_, h⟩ := h
  rw [readPath, hk] at h
  simp only [hs, take?_eq_none hn] at h
  split at h
  · next he =>
    cases h
    exact ⟨_, he⟩
  · cases h

theorem of_gives_slashes_descend (h : Gives (readSlashes a ('/' :: '/' :: s)) e r) :
    Gives (readRelative (descend a) s) e r := by
  obtain ⟨p, hp⟩ := take?_cons '/' ('/' :: s)
  obtain ⟨q, hq⟩ := take?_cons '/' s
  obtain ⟨_, h⟩ := h
  rw [readSlashes, hp] at h
  simp only [hq] at h
  split at h
  · next he =>
    cases h
    exact ⟨_, he⟩
  · cases h

theorem of_gives_slashes_step (hs : s.head? ≠ some '/') (h : Gives (readSlashes a ('/' :: s)) e r) :
    ∃ b r', Gives (readStep a s) b r' ∧ Gives (readSteps b r') e r := by
  obtain ⟨p, hp⟩ := take?_cons '/' s
  obtain ⟨_, h⟩ := h
  rw [readSlashes, hp] at h
  simp only [take?_eq_none hs] at h
  split at h
  · cases h
  · next b r' q hb =>
    split at h
    · next he =>
      cases h
      exact ⟨b, r', ⟨q, hb⟩, _, he⟩
    · cases h

theorem of_gives_relative (hs : (skip s).val.head? ≠ some '/')
    (h : Gives (readRelative a s) e r) :
    ∃ b r', Gives (readStep a s) b r' ∧ Gives (readSteps b r') e r := by
  obtain ⟨_, h⟩ := h
  rw [readRelative, next?_eq_none hs] at h
  simp only at h
  split at h
  · cases h
  · next b r' q hb =>
    split at h
    · next he =>
      cases h
      exact ⟨b, r', ⟨q, hb⟩, _, he⟩
    · cases h

theorem of_gives_steps_step (hs : (skip s).val = '/' :: r) (h : Gives (readSteps a s) e r') :
    ∃ b r'', Gives (readStepAfterSlash a r) b r'' ∧ Gives (readSteps b r'') e r' := by
  obtain ⟨p, hp⟩ := next?_of_skip hs
  obtain ⟨_, h⟩ := h
  rw [readSteps, hp] at h
  simp only at h
  split at h
  · cases h
  · next b r'' q hb =>
    split at h
    · next he =>
      cases h
      exact ⟨b, r'', ⟨q, hb⟩, _, he⟩
    · cases h

theorem of_gives_stepAfterSlash_descend (h : Gives (readStepAfterSlash a ('/' :: s)) e r) :
    Gives (readStep (descend a) s) e r := by
  obtain ⟨p, hp⟩ := take?_cons '/' s
  obtain ⟨_, h⟩ := h
  rw [readStepAfterSlash, hp] at h
  simp only at h
  split at h
  · next he =>
    cases h
    exact ⟨_, he⟩
  · cases h

theorem of_gives_stepAfterSlash_step (hs : s.head? ≠ some '/')
    (h : Gives (readStepAfterSlash a s) e r) : Gives (readStep a s) e r := by
  rw [readStepAfterSlash, take?_eq_none hs] at h
  exact h

/-- No slash is left behind steps. The induction is on the text, which every step shortens. -/
theorem head?_of_gives_steps (h : Gives (readSteps a s) e r) : r.head? ≠ some '/' := by
  induction hn : s.length using Nat.strongRecOn generalizing a s with
  | ind n ih =>
    subst hn
    -- At a slash a step has been read, and the rest is shorter; otherwise the reader has stopped
    -- there.
    by_cases hs : (skip s).val.head? = some '/'
    · obtain ⟨t, ht⟩ : ∃ t, (skip s).val = '/' :: t := by
        cases hk : (skip s).val with
        | nil =>
          rw [hk] at hs
          cases hs
        | cons c t =>
          rw [hk] at hs
          exact ⟨t, by simpa using hs⟩
      obtain ⟨b, r', ⟨hlt, -⟩, hrest⟩ := of_gives_steps_step ht h
      exact ih r'.length (length_lt_of_skip ht (Nat.le_of_lt hlt)) hrest rfl
    · obtain ⟨-, rfl⟩ := h.unique (gives_steps_stop a hs)
      exact hs

theorem of_gives_afterSlash_descend (hs : (skip s).val.head? ≠ some '/')
    (h : Gives (readAfterSlash a ('/' :: s)) e r) : Gives (readRelative (descend a) s) e r := by
  obtain ⟨p, hp⟩ := take?_cons '/' s
  obtain ⟨_, h⟩ := h
  rw [readAfterSlash, hp] at h
  simp only at h
  split at h
  · cases h
  · next b r' q hb =>
    split at h
    · next t hm =>
      cases h
      have hb : Gives (readRelative (descend a) s) b r' := ⟨q, hb⟩
      obtain ⟨c, u, -, hsteps⟩ := of_gives_relative hs hb
      obtain ⟨rfl, hr⟩ := Gives.unique ⟨_, hm⟩ (gives_moreSlashes b (head?_of_gives_steps hsteps))
      show Gives _ e t.val
      rwa [hr]
    · cases h

/-! ## Steps and predicates

A step that is no point has an axis with a test and a row of predicates. A predicate is an
expression up to its bracket. -/

theorem of_gives_step (hs : (skip s).val.head? ≠ some '.') (h : Gives (readStep a s) e r) :
    ∃ axis test predicates r', GivesTest (readAxisTest? (skip s).val) axis test r' ∧
      Gives (readPredicates r') predicates r ∧ e = .step a axis test predicates := by
  rcases hk : skip s with ⟨t, ht⟩
  have hn := next?_eq_none hs
  obtain ⟨_, h⟩ := h
  rw [readStep, hn, hk] at h
  simp only at h
  split at h
  · cases h
  · next axis test r' p hp =>
    split at h
    · next predicates _ hq =>
      cases h
      exact ⟨axis, test, predicates, r', ⟨p, hp⟩, ⟨_, hq⟩, rfl⟩
    · cases h

theorem of_gives_predicates_step {es : List Expr} (hs : (skip s).val = '[' :: r)
    (h : Gives (readPredicates s) es r') : ∃ b t further, Gives (readLevel levels r) b (']' :: t) ∧
      Gives (readPredicates t) further r' ∧ es = b :: further := by
  obtain ⟨p, hp⟩ := next?_of_skip hs
  obtain ⟨_, h⟩ := h
  rw [readPredicates, hp] at h
  simp only at h
  split at h
  · cases h
  · next b u q hb =>
    split at h
    · cases h
    · next t _ ht =>
      split at h
      · next further _ hf =>
        cases h
        have hb : Gives (readLevel levels r) b u := ⟨q, hb⟩
        rw [eq_of_take? ht] at hb
        exact ⟨b, t, further, hb, ⟨_, hf⟩, rfl⟩
      · cases h

theorem of_gives_filters_step (hs : (skip s).val = '[' :: r) (h : Gives (readFilters a s) e r') :
    ∃ b t, Gives (readLevel levels r) b (']' :: t) ∧ Gives (readFilters (.filter a b) t) e r' := by
  obtain ⟨p, hp⟩ := next?_of_skip hs
  obtain ⟨_, h⟩ := h
  rw [readFilters, hp] at h
  simp only at h
  split at h
  · cases h
  · next b u q hb =>
    split at h
    · cases h
    · next t _ ht =>
      split at h
      · next hf =>
        cases h
        have hb : Gives (readLevel levels r) b u := ⟨q, hb⟩
        rw [eq_of_take? ht] at hb
        exact ⟨b, t, hb, _, hf⟩
      · cases h

/-! ## Primaries

Only calls are needed here: a text that begins with a name and a parenthesis is neither a number nor
a literal. -/

theorem of_gives_primary_call {f : QName} (hf : Gives (readQName? s) f r)
    (hr : (skip r).val = '(' :: r') (hn : readNumber? s = none) (hl : readLiteral? s = none)
    (hs : s.head? ≠ some '$') (hs' : s.head? ≠ some '(') {t : Text}
    (h : Gives (readPrimary s) e t) : ∃ es, Gives (readArguments r') es t := by
  obtain ⟨p, hp⟩ := hf
  obtain ⟨q, hq⟩ := next?_of_skip hr
  obtain ⟨_, h⟩ := h
  rw [readPrimary, take?_eq_none hs, take?_eq_none hs', hl, hn, hp] at h
  simp only [hq] at h
  split at h
  · next es _ he =>
    cases h
    exact ⟨es, _, he⟩
  · cases h

theorem of_gives_arguments {es : List Expr} (hs : (skip s).val.head? ≠ some ')')
    (h : Gives (readArguments s) es r) : Gives (readFurther s) es r := by
  rwa [readArguments, next?_eq_none hs] at h

theorem of_gives_further {es : List Expr} (h : Gives (readFurther s) es r) :
    ∃ b t, Gives (readLevel levels s) b t ∧ (t = ')' :: r ∨
      ∃ u further, t = ',' :: u ∧ Gives (readFurther u) further r) := by
  obtain ⟨_, h⟩ := h
  rw [readFurther] at h
  split at h
  · cases h
  · next b t q hb =>
    split at h
    · next u hu =>
      cases h
      exact ⟨b, t, ⟨q, hb⟩, .inl (eq_of_take? hu)⟩
    · split at h
      · cases h
      · next u _ hu =>
        split at h
        · next further _ hf =>
          cases h
          exact ⟨b, t, ⟨q, hb⟩, .inr ⟨u, further, eq_of_take? hu, _, hf⟩⟩
        · cases h

end

end TreeQuery.XPath.Expr
