import TreeQuery.Proofs.XPath.Stuck

/-!
# Where the reader of a path is

To see where a path jams, one has to know where the reader is when it gets there. A text tracks a
stretch of a path if all that has been read of what begins with the text went on from that stretch.

Main statements: `Tracks.given`, `Tracks.onward` and `Tracks.below` with their counterparts that
jam.
-/

namespace TreeQuery.XPath.Expr

/-! ## Texts that track a stretch

This is the converse of leading to a stretch: what leads says that a text can be read so, what
tracks that it can be read in no other way. Only the second helps where reading fails later on. -/

/-- A text behind which whatever is read goes on from a stretch of a path. -/
structure Tracks (t : Text) (p : Stretch) : Prop where
  begins : begins t = true
  resumes {s r r' : Text} {e : Expr} : (skip s).val = t ++ r → endsName r = true →
    Gives (readPath s) e r' → Resumes p r e r'

section

variable {t u v : Text} {p : Stretch} {axis : Axis} {test : NodeTest} {e : Expr}

/-- A predicate behind a path has been given to it. -/
theorem Tracks.given (h : Tracks t p) (hv : ReadsPredicate v e) : Tracks (t ++ v) (p.given e) := by
  obtain ⟨u, rfl, hu⟩ := hv
  refine ⟨begins_append h.begins _, fun {s r r' a} hs _ he => ?_⟩
  have hs' : (skip s).val = t ++ '[' :: (u ++ ']' :: r) := by rw [hs]; simp
  have hopen : (skip ('[' :: (u ++ ']' :: r))).val = '[' :: (u ++ ']' :: r) := skip_cons rfl _
  have hlevel := hu.gives (skip_of_begins hu.begins (']' :: r)) (fun _ => rfl) rfl
  have hresumes := h.resumes hs' rfl he
  -- Behind a step it is one more predicate of the step, behind a set one more filter.
  cases p with
  | step start axis test predicates =>
    obtain ⟨further, s', hfurther, hsteps⟩ := hresumes
    obtain ⟨b, w, rest, hb, hrest, rfl⟩ := of_gives_predicates_step hopen hfurther
    obtain ⟨rfl, hw⟩ := hb.unique hlevel
    cases hw
    refine ⟨rest, s', hrest, ?_⟩
    rwa [List.append_assoc]
  | set c =>
    obtain ⟨c', s', hfilters, hslashes⟩ := hresumes
    obtain ⟨b, w, hb, hrest⟩ := of_gives_filters_step hopen hfilters
    obtain ⟨rfl, hw⟩ := hb.unique hlevel
    cases hw
    exact ⟨c', s', hrest, hslashes⟩

/-- A predicate that fails makes the path fail. -/
theorem Tracks.jams_given {start : Expr} {es : List Expr} (h : Tracks t (.step start axis test es))
    (hv : JamsPredicate v) : JamsPath (t ++ v) := by
  obtain ⟨⟨u, rfl⟩, hfails⟩ := hv
  refine ⟨begins_append h.begins _, fun {s r r' a} hs he => ?_⟩
  obtain ⟨further, s', hfurther, -⟩ := h.resumes (by rw [hs, List.append_assoc]) rfl he
  exact absurd hfurther (hfails (skip_cons rfl (u ++ r)))

/-- The test and predicates of a step that has been read. -/
theorem further_of_step {start a e : Expr} {r r' r'' : Text} (ht : ReadsTest u axis test)
    (hr : endsName r = true) (hb : Gives (readStep start (u ++ r)) a r')
    (he : Gives (readSteps a r') e r'') : Resumes (.step start axis test []) r e r'' := by
  obtain ⟨axis', test', es, v, htest, hes, rfl⟩ :=
    of_gives_step (head?_skip_of_beginsStep ht.begins (by decide) r) hb
  rw [skip_of_beginsStep ht.begins] at htest
  obtain ⟨rfl, rfl, rfl⟩ := htest.unique (ht.gives hr)
  exact ⟨es, r', hes, he⟩

/-- The first step of a relative path has been read as its test. -/
theorem resumes_of_relative {start e : Expr} {r r' : Text} (ht : ReadsTest u axis test)
    (hr : endsName r = true) (he : Gives (readRelative start (u ++ r)) e r') :
    Resumes (.step start axis test []) r e r' := by
  obtain ⟨b, v, hb, he⟩ :=
    of_gives_relative (head?_skip_of_beginsStep ht.begins (by decide) r) he
  exact further_of_step ht hr hb he

/-- A slash behind a path ends the predicates: a step goes on to the next step, a set to what the
slashes behind it lead to. -/
theorem Resumes.slash {r r' : Text} (h : Resumes p ('/' :: r) e r') :
    (∃ b r'', Gives (readStepAfterSlash p.expr r) b r'' ∧ Gives (readSteps b r'') e r') ∨
      Gives (readSlashes p.expr ('/' :: r)) e r' := by
  have hopen : (skip ('/' :: r)).val = '/' :: r := skip_cons rfl _
  cases p with
  | step start axis test predicates =>
    obtain ⟨further, s', hfurther, hsteps⟩ := h
    have hstop := gives_predicates_stop (s := '/' :: r) (by rw [hopen]; simp)
    obtain ⟨rfl, rfl⟩ := hfurther.unique hstop
    rw [hopen, List.append_nil] at hsteps
    exact .inl (of_gives_steps_step hopen hsteps)
  | set c =>
    obtain ⟨c', s', hfilters, hslashes⟩ := h
    have hstop := gives_filters_stop c (s := '/' :: r) (by rw [hopen]; simp)
    obtain ⟨rfl, rfl⟩ := hfilters.unique hstop
    rw [hopen] at hslashes
    exact .inr hslashes

/-- What has been read behind a path with one slash behind it. -/
theorem Resumes.onward {r r' : Text} (h : Resumes p ('/' :: r) e r') (hr : r.head? ≠ some '/') :
    ∃ b r'', Gives (readStep p.expr r) b r'' ∧ Gives (readSteps b r'') e r' := by
  rcases h.slash with ⟨b, v, hb, he⟩ | he
  · exact ⟨b, v, of_gives_stepAfterSlash_step hr hb, he⟩
  · exact of_gives_slashes_step hr he

/-- What has been read behind a path with two slashes behind it. -/
theorem Resumes.below {r r' : Text} (h : Resumes p ('/' :: '/' :: r) e r')
    (hr : (skip r).val.head? ≠ some '/') :
    ∃ b r'', Gives (readStep (descend p.expr) r) b r'' ∧ Gives (readSteps b r'') e r' := by
  rcases h.slash with ⟨b, v, hb, he⟩ | he
  · exact ⟨b, v, of_gives_stepAfterSlash_descend hb, he⟩
  · exact of_gives_relative hr (of_gives_slashes_descend he)

/-- What a step behind one slash tracks. -/
theorem Tracks.onward (h : Tracks t p) (ht : ReadsTest u axis test) :
    Tracks (t ++ '/' :: u) (.step p.expr axis test []) := by
  refine ⟨begins_append h.begins _, fun {s r r' a} hs hr he => ?_⟩
  have hs' : (skip s).val = t ++ '/' :: (u ++ r) := by rw [hs]; simp
  obtain ⟨b, v, hb, he⟩ :=
    (h.resumes hs' rfl he).onward (head?_of_beginsStep ht.begins (by decide) r)
  exact further_of_step ht hr hb he

/-- What a step behind two slashes tracks. -/
theorem Tracks.below (h : Tracks t p) (ht : ReadsTest u axis test) :
    Tracks (t ++ '/' :: '/' :: u) (.step (descend p.expr) axis test []) := by
  refine ⟨begins_append h.begins _, fun {s r r' a} hs hr he => ?_⟩
  have hs' : (skip s).val = t ++ '/' :: '/' :: (u ++ r) := by rw [hs]; simp
  have hslash := head?_skip_of_beginsStep (d := '/') ht.begins (by decide) r
  obtain ⟨b, v, hb, he⟩ := (h.resumes hs' rfl he).below hslash
  exact further_of_step ht hr hb he

/-- A step that jams makes the path jam behind one slash. -/
theorem Tracks.jams_onward (h : Tracks t p) (hu : JamsTest u) : JamsPath (t ++ '/' :: u) := by
  refine ⟨begins_append h.begins _, fun {s r r' a} hs he => ?_⟩
  have hs' : (skip s).val = t ++ '/' :: (u ++ r) := by rw [hs]; simp
  obtain ⟨b, v, hb, he⟩ := (h.resumes hs' rfl he).onward (hu.head? r).1
  exact hu.stuck_steps hb he

/-- It does so behind two. -/
theorem Tracks.jams_below (h : Tracks t p) (hu : JamsTest u) :
    JamsPath (t ++ '/' :: '/' :: u) := by
  refine ⟨begins_append h.begins _, fun {s r r' a} hs he => ?_⟩
  have hs' : (skip s).val = t ++ '/' :: '/' :: (u ++ r) := by rw [hs]; simp
  have hslash : (skip (u ++ r)).val.head? ≠ some '/' := by
    rw [hu.skip r]
    exact (hu.head? r).1
  obtain ⟨b, v, hb, he⟩ := (h.resumes hs' rfl he).below hslash
  exact hu.stuck_steps hb he

/-- The first step of a path from anywhere in the document. -/
theorem Tracks.anywhere (ht : ReadsTest u axis test) :
    Tracks ('/' :: '/' :: u) (.step (descend .root) axis test []) := by
  refine ⟨rfl, fun {s r r' a} hs hr he => resumes_of_relative ht hr ?_⟩
  exact of_gives_afterSlash_descend (head?_skip_of_beginsStep ht.begins (by decide) r)
    (of_gives_path_of_slash hs he)

/-- The first step of a path from the context node, on an axis that is named. -/
theorem Tracks.along (axis : Axis) (h : ReadsNodeTest u test) :
    Tracks (axis.name ++ "::".toList ++ u) (.step .here axis test []) := by
  have ht := readsTest_along axis h
  refine ⟨begins_of_step ht.begins, fun {s r r' a} hs hr he => resumes_of_relative ht hr ?_⟩
  have hprimary : beginsWithPrimary? (skip s).val = some false := by
    rw [hs, List.append_assoc, List.append_assoc]
    exact beginsWithPrimary?_axis axis (u ++ r)
  have hslash : (skip s).val.head? ≠ some '/' := by
    rw [hs]
    exact head?_of_beginsStep ht.begins (by decide) r
  have := of_gives_path_of_step hprimary hslash he
  rwa [hs] at this

end

end TreeQuery.XPath.Expr
