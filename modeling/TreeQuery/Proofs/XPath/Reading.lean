import TreeQuery.XPath.Reader

/-!
# What the readers give

The readers of an expression carry proofs about lengths along. Here each of them is described
without: a reader gives a result and leaves a rest. There is one rule for each way in which a reader
can succeed, and together the rules say how a text is read from what begins it.
-/

namespace TreeQuery.XPath.Expr

/-- The reader of a result succeeds, with what it has read and what it leaves. -/
def Gives {α : Type} {P : Text → Prop} (result : Option (α × { r : Text // P r })) (a : α)
    (r : Text) : Prop :=
  ∃ h, result = some (a, ⟨r, h⟩)

/-- The reader of an axis and a test succeeds. -/
def GivesTest {P : Text → Prop} (result : Option (Axis × NodeTest × { r : Text // P r }))
    (axis : Axis) (test : NodeTest) (r : Text) : Prop :=
  ∃ h, result = some (axis, test, ⟨r, h⟩)

/-! ## Characters

White space may stand in front of every token, and each reader skips it first. The rules are
therefore stated for the text behind the white space. -/

section

variable {c : Char} {s r : Text}

theorem skip_cons (h : Text.isSpace c = false) (r : Text) : (skip (c :: r)).val = c :: r := by
  simp [skip, Text.skip, h]

theorem skip_space_cons (h : Text.isSpace c = true) (r : Text) :
    (skip (c :: r)).val = (skip r).val := by
  simp [skip, Text.skip, h]

theorem skip_skip (s : Text) : (skip (skip s).val).val = (skip s).val := by
  induction s with
  | nil => rfl
  | cons c r ih =>
    cases h : Text.isSpace c with
    | false => rw [skip_cons h, skip_cons h]
    | true => rw [skip_space_cons h, ih]

theorem skip_append {g : Text} (h : g.all Text.isSpace = true) (s : Text) :
    (skip (g ++ s)).val = (skip s).val := by
  induction g with
  | nil => rfl
  | cons c g ih =>
    rw [List.all_cons, Bool.and_eq_true] at h
    rw [List.cons_append, skip_space_cons h.1, ih h.2]

theorem take?_cons (c : Char) (r : Text) : ∃ h, Text.take? c (c :: r) = some ⟨r, h⟩ :=
  ⟨by simp, by simp [Text.take?]⟩

theorem take?_eq_none (h : s.head? ≠ some c) : Text.take? c s = none := by
  cases s with
  | nil => rfl
  | cons d r =>
    have hd : d ≠ c := by simpa using h
    simp [Text.take?, hd]

/-- What is left behind the first character that is no white space is shorter. -/
theorem length_lt_of_skip {t : Text} (h : (skip s).val = c :: r) (ht : t.length ≤ r.length) :
    t.length < s.length := by
  have hle := (skip s).property
  rw [h, List.length_cons] at hle
  omega

theorem next?_of_skip (h : (skip s).val = c :: r) : ∃ h, next? c s = some ⟨r, h⟩ := by
  rcases hs : skip s with ⟨t, ht⟩
  rw [hs] at h
  subst h
  rw [next?, hs]
  obtain ⟨h, hr⟩ := take?_cons c r
  simp only [hr]
  exact ⟨Nat.lt_of_lt_of_le h ht, rfl⟩

theorem next?_eq_none (h : (skip s).val.head? ≠ some c) : next? c s = none := by
  rcases hs : skip s with ⟨t, ht⟩
  rw [hs] at h
  rw [next?, hs]
  simp only [take?_eq_none h]

end

/-! ## Levels

Operators of one level join operands of the next tighter one, from the left. A rule for a reader
that repeats something comes in two parts: one for going on, and one for stopping where nothing more
fits. -/

section

variable {signs : List Sign} {ls : List (List Sign)} {s r r' r'' : Text} {a b e : Expr}

theorem gives_level_nil (h : Gives (readUnary none s) e r) : Gives (readLevel [] s) e r := by
  rw [readLevel]
  exact h

theorem gives_level_cons (h : Gives (readLevel ls s) a r)
    (h' : Gives (readChain signs ls a r) e r') : Gives (readLevel (signs :: ls) s) e r' := by
  obtain ⟨p, hp⟩ := h
  obtain ⟨p', hp'⟩ := h'
  rw [readLevel, hp]
  simp only [hp']
  exact ⟨_, rfl⟩

theorem gives_chain_stop (signs : List Sign) (ls : List (List Sign)) (s : Text) (a : Expr)
    (h : readOperator? signs (skip s).val = none) :
    Gives (readChain signs ls a s) a (skip s).val := by
  rcases hs : skip s with ⟨t, ht⟩
  rw [hs] at h
  rw [readChain, hs]
  simp only [h]
  exact ⟨_, rfl⟩

theorem gives_chain_step {o : Operator} (h : Gives (readOperator? signs (skip s).val) o r)
    (hb : Gives (readLevel ls r) b r') (he : Gives (readChain signs ls (.binary o a b) r') e r'') :
    Gives (readChain signs ls a s) e r'' := by
  rcases hs : skip s with ⟨t, ht⟩
  rw [hs] at h
  obtain ⟨p, hp⟩ := h
  obtain ⟨p', hp'⟩ := hb
  obtain ⟨p'', hp''⟩ := he
  rw [readChain, hs]
  simp only [hp, hp', hp'']
  exact ⟨_, rfl⟩

theorem gives_unary (hs : (skip s).val.head? ≠ some '-') (h : Gives (readUnion s) e r) :
    Gives (readUnary none s) e r := by
  obtain ⟨p, hp⟩ := h
  rw [readUnary, next?_eq_none hs]
  simp only [hp]
  exact ⟨p, rfl⟩

theorem gives_union (h : Gives (readPath s) a r) (h' : Gives (readBranches a r) e r') :
    Gives (readUnion s) e r' := by
  obtain ⟨p, hp⟩ := h
  obtain ⟨p', hp'⟩ := h'
  rw [readUnion, hp]
  simp only [hp']
  exact ⟨_, rfl⟩

theorem gives_branches_stop (a : Expr) (h : (skip s).val.head? ≠ some '|') :
    Gives (readBranches a s) a (skip s).val := by
  rw [readBranches, next?_eq_none h]
  exact ⟨_, rfl⟩

theorem gives_branches_step (h : (skip s).val = '|' :: r) (hb : Gives (readPath r) b r')
    (he : Gives (readBranches (.binary .union a b) r') e r'') :
    Gives (readBranches a s) e r'' := by
  obtain ⟨p, hp⟩ := next?_of_skip h
  obtain ⟨p', hp'⟩ := hb
  obtain ⟨p'', hp''⟩ := he
  rw [readBranches, hp]
  simp only [hp', hp'']
  exact ⟨_, rfl⟩

end

/-! ## Paths

A path begins with a primary, with slashes, or with a step. Behind its first part it goes on with
slashes and steps; the rules tell one slash from two by the next character. -/

section

variable {s t r r' r'' : Text} {a b e : Expr}

theorem gives_path_of_primary (h : beginsWithPrimary? (skip s).val = some true)
    (ha : Gives (readPrimary (skip s).val) a r) (hb : Gives (readFilters a r) b r')
    (he : Gives (readSlashes b r') e r'') : Gives (readPath s) e r'' := by
  rcases hs : skip s with ⟨t, ht⟩
  rw [hs] at h ha
  obtain ⟨p, hp⟩ := ha
  obtain ⟨p', hp'⟩ := hb
  obtain ⟨p'', hp''⟩ := he
  rw [readPath, hs]
  simp only [h, hp, hp', hp'']
  exact ⟨_, rfl⟩

theorem gives_path_of_slash (h : (skip s).val = '/' :: r)
    (he : Gives (readAfterSlash .root r) e r') : Gives (readPath s) e r' := by
  rcases hs : skip s with ⟨t, ht⟩
  rw [hs] at h
  subst h
  obtain ⟨p, hp⟩ := take?_cons '/' r
  obtain ⟨p', hp'⟩ := he
  have hb : beginsWithPrimary? ('/' :: r) = some false := rfl
  rw [readPath, hs]
  simp only [hb, hp, hp']
  exact ⟨_, rfl⟩

theorem gives_path_of_step (h : beginsWithPrimary? (skip s).val = some false)
    (hn : (skip s).val.head? ≠ some '/') (he : Gives (readRelative .here (skip s).val) e r) :
    Gives (readPath s) e r := by
  rcases hs : skip s with ⟨t, ht⟩
  rw [hs] at h hn he
  obtain ⟨p, hp⟩ := he
  rw [readPath, hs]
  simp only [h, take?_eq_none hn, hp]
  exact ⟨_, rfl⟩

theorem gives_slashes_stop (a : Expr) (h : s.head? ≠ some '/') :
    Gives (readSlashes a s) a s := by
  rw [readSlashes, take?_eq_none h]
  exact ⟨_, rfl⟩

theorem gives_slashes_descend (h : Gives (readRelative (descend a) s) e r) :
    Gives (readSlashes a ('/' :: '/' :: s)) e r := by
  obtain ⟨p, hp⟩ := take?_cons '/' ('/' :: s)
  obtain ⟨p', hp'⟩ := take?_cons '/' s
  obtain ⟨p'', hp''⟩ := h
  rw [readSlashes, hp]
  simp only [hp', hp'']
  exact ⟨_, rfl⟩

theorem gives_slashes_step (hs : s.head? ≠ some '/') (h : Gives (readStep a s) b r)
    (he : Gives (readSteps b r) e r') : Gives (readSlashes a ('/' :: s)) e r' := by
  obtain ⟨p, hp⟩ := take?_cons '/' s
  obtain ⟨p', hp'⟩ := h
  obtain ⟨p'', hp''⟩ := he
  rw [readSlashes, hp]
  simp only [take?_eq_none hs, hp', hp'']
  exact ⟨_, rfl⟩

theorem gives_moreSlashes (a : Expr) (h : s.head? ≠ some '/') :
    Gives (readMoreSlashes a s) a s := by
  rw [readMoreSlashes, take?_eq_none h]
  exact ⟨_, rfl⟩

theorem gives_afterSlash_descend (h : Gives (readRelative (descend a) s) e r)
    (hr : r.head? ≠ some '/') : Gives (readAfterSlash a ('/' :: s)) e r := by
  obtain ⟨p, hp⟩ := take?_cons '/' s
  obtain ⟨p', hp'⟩ := h
  obtain ⟨p'', hp''⟩ := gives_moreSlashes e hr
  rw [readAfterSlash, hp]
  simp only [hp', hp'']
  exact ⟨_, rfl⟩

theorem gives_afterSlash_step (hs : s.head? ≠ some '/') (hm : mayFollowRoot (skip s).val = true)
    (h : Gives (readRelative a (skip s).val) e r) (hr : r.head? ≠ some '/') :
    Gives (readAfterSlash a s) e r := by
  rcases hk : skip s with ⟨t, ht⟩
  rw [hk] at hm h
  obtain ⟨p, hp⟩ := h
  obtain ⟨p', hp'⟩ := gives_moreSlashes e hr
  rw [readAfterSlash, take?_eq_none hs, hk]
  simp only [hm, if_true, hp, hp']
  exact ⟨_, rfl⟩

theorem gives_relative (hs : (skip s).val.head? ≠ some '/') (h : Gives (readStep a s) b r)
    (he : Gives (readSteps b r) e r') : Gives (readRelative a s) e r' := by
  obtain ⟨p, hp⟩ := h
  obtain ⟨p', hp'⟩ := he
  rw [readRelative, next?_eq_none hs]
  simp only [hp, hp']
  exact ⟨_, rfl⟩

theorem gives_steps_stop (a : Expr) (h : (skip s).val.head? ≠ some '/') :
    Gives (readSteps a s) a (skip s).val := by
  rw [readSteps, next?_eq_none h]
  exact ⟨_, rfl⟩

theorem gives_steps_step (hs : (skip s).val = '/' :: r) (h : Gives (readStepAfterSlash a r) b r')
    (he : Gives (readSteps b r') e r'') : Gives (readSteps a s) e r'' := by
  obtain ⟨p, hp⟩ := next?_of_skip hs
  obtain ⟨p', hp'⟩ := h
  obtain ⟨p'', hp''⟩ := he
  rw [readSteps, hp]
  simp only [hp', hp'']
  exact ⟨_, rfl⟩

theorem gives_stepAfterSlash_descend (h : Gives (readStep (descend a) s) e r) :
    Gives (readStepAfterSlash a ('/' :: s)) e r := by
  obtain ⟨p, hp⟩ := take?_cons '/' s
  obtain ⟨p', hp'⟩ := h
  rw [readStepAfterSlash, hp]
  simp only [hp']
  exact ⟨_, rfl⟩

theorem gives_stepAfterSlash_step (hs : s.head? ≠ some '/') (h : Gives (readStep a s) e r) :
    Gives (readStepAfterSlash a s) e r := by
  obtain ⟨p, hp⟩ := h
  rw [readStepAfterSlash, take?_eq_none hs, hp]
  exact ⟨p, rfl⟩

/-! ## Steps and predicates

A step is a point, or an axis with a test and predicates in brackets. A filter is a primary with
predicates in brackets, each of which makes a new set. -/

theorem gives_step_here (a : Expr) (hs : (skip s).val = '.' :: r) (hr : r.head? ≠ some '.') :
    Gives (readStep a s) a r := by
  obtain ⟨p, hp⟩ := next?_of_skip hs
  rw [readStep, hp]
  simp only [take?_eq_none hr]
  exact ⟨_, rfl⟩

theorem gives_step {axis : Axis} {test : NodeTest} {predicates : List Expr} (a : Expr)
    (hs : (skip s).val.head? ≠ some '.') (ht : GivesTest (readAxisTest? (skip s).val) axis test r)
    (hp : Gives (readPredicates r) predicates r') :
    Gives (readStep a s) (.step a axis test predicates) r' := by
  rcases hk : skip s with ⟨t, h⟩
  have hn := next?_eq_none hs
  rw [hk] at ht
  obtain ⟨p, hp'⟩ := ht
  obtain ⟨p', hp''⟩ := hp
  rw [readStep, hn, hk]
  simp only [hp', hp'']
  exact ⟨_, rfl⟩

theorem gives_predicates_stop (h : (skip s).val.head? ≠ some '[') :
    Gives (readPredicates s) [] (skip s).val := by
  rw [readPredicates, next?_eq_none h]
  exact ⟨_, rfl⟩

theorem gives_predicates_step {es : List Expr} (hs : (skip s).val = '[' :: r)
    (h : Gives (readLevel levels r) e (']' :: r')) (he : Gives (readPredicates r') es r'') :
    Gives (readPredicates s) (e :: es) r'' := by
  obtain ⟨p, hp⟩ := next?_of_skip hs
  obtain ⟨p', hp'⟩ := h
  obtain ⟨p'', hp''⟩ := take?_cons ']' r'
  obtain ⟨q, hq⟩ := he
  rw [readPredicates, hp]
  simp only [hp', hp'', hq]
  exact ⟨_, rfl⟩

theorem gives_filters_stop (a : Expr) (h : (skip s).val.head? ≠ some '[') :
    Gives (readFilters a s) a (skip s).val := by
  rw [readFilters, next?_eq_none h]
  exact ⟨_, rfl⟩

theorem gives_filters_step (hs : (skip s).val = '[' :: r)
    (h : Gives (readLevel levels r) b (']' :: r')) (he : Gives (readFilters (.filter a b) r') e r'') :
    Gives (readFilters a s) e r'' := by
  obtain ⟨p, hp⟩ := next?_of_skip hs
  obtain ⟨p', hp'⟩ := h
  obtain ⟨p'', hp''⟩ := take?_cons ']' r'
  obtain ⟨q, hq⟩ := he
  rw [readFilters, hp]
  simp only [hp', hp'', hq]
  exact ⟨_, rfl⟩

end

/-! ## Primaries

The readers are tried one after another: a variable, parentheses, a text, a number, a call. A rule
asks that those in front fail. -/

section

variable {s r r' r'' : Text} {e : Expr}

theorem gives_primary_enclosed (h : Gives (readLevel levels s) e (')' :: r)) :
    Gives (readPrimary ('(' :: s)) e r := by
  obtain ⟨p, hp⟩ := take?_cons '(' s
  obtain ⟨p', hp'⟩ := h
  obtain ⟨p'', hp''⟩ := take?_cons ')' r
  rw [readPrimary, take?_eq_none (by simp), hp]
  simp only [hp', hp'']
  exact ⟨_, rfl⟩

theorem gives_primary_literal {v : Text} (h : Gives (readLiteral? s) v r)
    (hs : s.head? ≠ some '$') (hs' : s.head? ≠ some '(') :
    Gives (readPrimary s) (.literal v) r := by
  obtain ⟨p, hp⟩ := h
  rw [readPrimary, take?_eq_none hs, take?_eq_none hs', hp]
  exact ⟨p, rfl⟩

theorem gives_primary_number {n : Number} (h : Gives (readNumber? s) n r)
    (hl : readLiteral? s = none) (hs : s.head? ≠ some '$') (hs' : s.head? ≠ some '(') :
    Gives (readPrimary s) (.number n) r := by
  obtain ⟨p, hp⟩ := h
  rw [readPrimary, take?_eq_none hs, take?_eq_none hs', hl, hp]
  exact ⟨p, rfl⟩

theorem gives_primary_call {f : QName} {es : List Expr} (h : Gives (readQName? s) f r)
    (hr : (skip r).val = '(' :: r') (he : Gives (readArguments r') es r'')
    (hn : readNumber? s = none) (hl : readLiteral? s = none) (hs : s.head? ≠ some '$')
    (hs' : s.head? ≠ some '(') : Gives (readPrimary s) (.call f es) r'' := by
  obtain ⟨p, hp⟩ := h
  obtain ⟨p', hp'⟩ := next?_of_skip hr
  obtain ⟨p'', hp''⟩ := he
  rw [readPrimary, take?_eq_none hs, take?_eq_none hs', hl, hn, hp]
  simp only [hp', hp'']
  exact ⟨_, rfl⟩

theorem gives_arguments_nil (h : (skip s).val = ')' :: r) :
    Gives (readArguments s) ([] : List Expr) r := by
  obtain ⟨p, hp⟩ := next?_of_skip h
  rw [readArguments, hp]
  exact ⟨p, rfl⟩

theorem gives_arguments {es : List Expr} (hs : (skip s).val.head? ≠ some ')')
    (h : Gives (readFurther s) es r) : Gives (readArguments s) es r := by
  rw [readArguments, next?_eq_none hs]
  exact h

theorem gives_further_last (h : Gives (readLevel levels s) e (')' :: r)) :
    Gives (readFurther s) [e] r := by
  obtain ⟨p, hp⟩ := h
  obtain ⟨p', hp'⟩ := take?_cons ')' r
  rw [readFurther, hp]
  simp only [hp']
  exact ⟨_, rfl⟩

theorem gives_further_step {es : List Expr} (h : Gives (readLevel levels s) e (',' :: r))
    (he : Gives (readFurther r) es r') : Gives (readFurther s) (e :: es) r' := by
  obtain ⟨p, hp⟩ := h
  obtain ⟨p', hp'⟩ := take?_cons ',' r
  obtain ⟨p'', hp''⟩ := he
  have hn : Text.take? ')' (',' :: r) = none := take?_eq_none (by simp)
  rw [readFurther, hp]
  simp only [hn, hp', hp'']
  exact ⟨_, rfl⟩

end

end TreeQuery.XPath.Expr
