import TreeQuery.Proofs.XPath.Tracking

/-!
# Paths in parentheses

A path can be put into parentheses and go on behind them, with predicates of the set that it gives
and with further steps. Where the reader is behind the parentheses follows from where it was inside:
a closing parenthesis is no part of a path and no operator, so that the operand ends there.

A path can also begin at the document, behind one slash. If a name cannot follow there, the slash is
read alone.

Main statements: `Tracks.enclosed`, `JamsPath.enclosed`, `Tracks.jams`, `Tracks.root` and
`of_gives_levels`.
-/

namespace TreeQuery.XPath.Expr

/-- A text does not begin with a character, or it does. -/
theorem head?_cases (c : Char) (t : Text) : t.head? ≠ some c ∨ ∃ u, t = c :: u := by
  cases t with
  | nil => exact .inl nofun
  | cons d u =>
    by_cases hd : d = c
    · exact .inr ⟨u, by rw [hd]⟩
    · exact .inl (by simpa using hd)

/-! ## Levels

An operand of a loose level is read by reading one of each tighter level first. If it begins with no
minus sign, a union is what the reader comes to in the end; then it comes back through the levels,
and at each of them an operator may make more of it. -/

section

variable {signs : List Sign} {ls : List (List Sign)} {s r r' : Text} {a e : Expr} {k : Nat}

/-- An operator that is read is one of the level. -/
theorem exists_sign_of_readOperator? {o : Operator} (h : Gives (readOperator? signs s) o r) :
    ∃ sign ∈ signs, sign.2 = o := by
  obtain ⟨p, h⟩ := h
  induction signs with
  | nil => cases h
  | cons sign signs ih =>
    obtain ⟨t, o'⟩ := sign
    rw [readOperator?] at h
    split at h
    · cases h
      exact ⟨_, List.mem_cons_self, rfl⟩
    · obtain ⟨sign, hm, ho⟩ := ih h
      exact ⟨sign, List.mem_cons_of_mem _ hm, ho⟩

/-- A chain of operands is its first operand, or an operation of its level. -/
theorem of_gives_chain (h : Gives (readChain signs ls a s) e r) :
    (e = a ∧ r = (skip s).val) ∨ ∃ sign ∈ signs, ∃ x y, e = .binary sign.2 x y := by
  -- The induction is on the text, which every operand shortens.
  obtain ⟨n, hn⟩ : ∃ n, s.length = n := ⟨_, rfl⟩
  induction n using Nat.strongRecOn generalizing a s with
  | ind n ih =>
    subst hn
    -- Without an operator the chain ends; with one it is an operation, whatever follows.
    cases ho : readOperator? signs (skip s).val with
    | none => exact .inl (h.unique (gives_chain_stop signs ls s a ho))
    | some found =>
      obtain ⟨o, t, ht⟩ := found
      have hsign : Gives (readOperator? signs (skip s).val) o t := ⟨ht, ho⟩
      obtain ⟨b, u, hb, hrest⟩ := of_gives_chain_step hsign h
      have hshorter : u.length < s.length := by
        have hu := hb.1
        have hs := (skip s).property
        omega
      rcases ih u.length hshorter hrest rfl with ⟨rfl, -⟩ | hbinary
      · obtain ⟨sign, hm, rfl⟩ := exists_sign_of_readOperator? hsign
        exact .inr ⟨sign, hm, _, _, rfl⟩
      · exact .inr hbinary

/-- The union is no operator of a level. -/
theorem ne_union_of_mem_signsOf (hk : k < 6) {sign : Sign} (h : sign ∈ signsOf k) :
    sign.2 ≠ .union := by
  have hall : ∀ k < 6, ∀ sign ∈ signsOf k, sign.2 ≠ .union := by decide
  exact hall k hk sign h

/-- An operand is the union that it begins with, or an operation of another kind. -/
theorem of_gives_levels (hk : k ≤ 6) (hs : (skip s).val.head? ≠ some '-')
    (h : Gives (readLevel (levels.drop k) s) e r) :
    ∃ a r', Gives (readUnion s) a r' ∧ ((e = a ∧ (skip r).val = (skip r').val) ∨
      ∃ o x y, e = .binary o x y ∧ o ≠ .union) := by
  obtain ⟨n, hn⟩ := Nat.exists_eq_add_of_le hk
  induction n generalizing k e r with
  | zero =>
    obtain rfl : k = 6 := by omega
    exact ⟨e, r, of_gives_unary hs (of_gives_level_nil h), .inl ⟨rfl, rfl⟩⟩
  | succ n ih =>
    rw [drop_levels (by omega)] at h
    obtain ⟨b, t, hb, hc⟩ := of_gives_level_cons h
    obtain ⟨a, r', ha, hbelow⟩ := ih (by omega) hb (by omega)
    refine ⟨a, r', ha, ?_⟩
    rcases of_gives_chain hc with ⟨rfl, rfl⟩ | ⟨sign, hm, x, y, rfl⟩
    · rwa [skip_skip]
    · exact .inr ⟨_, x, y, rfl, ne_union_of_mem_signsOf (by omega) hm⟩

/-- A path is an operand if it ends as one. -/
theorem gives_level_of_path (hk : k ≤ 6) (hs : (skip s).val.head? ≠ some '-')
    (h : Gives (readPath s) a r) (hskip : (skip r).val = r) (hr : endsOperand k r = true) :
    Gives (readLevel (levels.drop k) s) a r := by
  obtain ⟨n, hn⟩ := Nat.exists_eq_add_of_le hk
  induction n generalizing k with
  | zero =>
    obtain rfl : k = 6 := by omega
    simp only [endsOperand, Bool.and_eq_true, bne_iff_ne] at hr
    have hbranches := gives_branches_stop (s := r) a hr.1.2
    rw [hskip] at hbranches
    exact gives_level_nil (gives_unary hs (gives_union h hbranches))
  | succ n ih =>
    have hlevel := ih (by omega) (endsOperand_succ hr) (by omega)
    have hchain := gives_chain_stop (signsOf k) (levels.drop (k + 1)) r a
      (readOperator?_of_ends (by omega) hr)
    rw [hskip] at hchain
    rw [drop_levels (by omega)]
    exact gives_level_cons hlevel hchain

end

/-! ## Parentheses

What the reader of the operand has left is a closing parenthesis. Since that neither goes on with a
path nor joins operands, the operand is the path in the parentheses and all of it. -/

section

variable {s r r' t u v : Text} {a e : Expr} {p : Stretch}

/-- In parentheses an operand has been read. -/
theorem of_gives_primary_enclosed (h : Gives (readPrimary ('(' :: s)) e r) :
    Gives (readLevel levels s) e (')' :: r) := by
  obtain ⟨p, hp⟩ := take?_cons '(' s
  obtain ⟨_, h⟩ := h
  rw [readPrimary, take?_eq_none (by simp), hp] at h
  simp only at h
  split at h
  · cases h
  · next b t q hb =>
    split at h
    · next r' hr =>
      cases h
      have hb : Gives (readLevel levels s) e t := ⟨q, hb⟩
      rwa [eq_of_take? hr] at hb
    · cases h

/-- A path that begins with a parenthesis: the operand in it, and what is read behind it. -/
theorem of_gives_path_enclosed (hs : (skip s).val = '(' :: t) (h : Gives (readPath s) e r) :
    ∃ a u b v, Gives (readLevel levels t) a (')' :: u) ∧ Gives (readFilters a u) b v ∧
      Gives (readSlashes b v) e r := by
  obtain ⟨a, u, b, v, ha, hb, he⟩ := of_gives_path_of_primary (by rw [hs]; rfl) h
  rw [hs] at ha
  exact ⟨a, u, b, v, of_gives_primary_enclosed ha, hb, he⟩

/-- Where a path ends, nothing more is read. -/
theorem Resumes.stop (h : Resumes p r e r') (hr : endsPath r = true) :
    e = p.expr ∧ r' = (skip r).val := by
  have hstop := resumes_stop p hr
  cases p with
  | step start axis test predicates =>
    obtain ⟨further, s, hfurther, hsteps⟩ := h
    obtain ⟨further', s', hfurther', hsteps'⟩ := hstop
    obtain ⟨rfl, rfl⟩ := hfurther.unique hfurther'
    exact hsteps.unique hsteps'
  | set a =>
    obtain ⟨b, s, hfilters, hslashes⟩ := h
    obtain ⟨b', s', hfilters', hslashes'⟩ := hstop
    obtain ⟨rfl, rfl⟩ := hfilters.unique hfilters'
    exact hslashes.unique hslashes'

/-- A path in parentheses is a set. -/
theorem Tracks.enclosed (h : Tracks t p) : Tracks ('(' :: (t ++ [')'])) (.set p.expr) := by
  refine ⟨rfl, fun {s r r' e} hs _ he => ?_⟩
  have hs' : (skip s).val = '(' :: (t ++ ')' :: r) := by rw [hs]; simp
  have hskip := skip_of_begins h.begins (')' :: r)
  have hdash : (skip (t ++ ')' :: r)).val.head? ≠ some '-' := by
    rw [hskip]
    exact (head?_of_begins h.begins _).1
  have hclose : (skip (')' :: r)).val = ')' :: r := skip_cons rfl r
  obtain ⟨a, u, b, v, ha, hfilters, hslashes⟩ := of_gives_path_enclosed hs' he
  -- Inside the parentheses a path has been read, which ends at the closing one.
  obtain ⟨c, w, hunion, -⟩ := of_gives_levels (k := 0) (Nat.zero_le 6) hdash ha
  obtain ⟨c', w', hpath, -⟩ := of_gives_union hunion
  obtain ⟨rfl, rfl⟩ := (h.resumes hskip rfl hpath).stop rfl
  rw [hclose] at hpath
  have hwhole := gives_level_of_path (k := 0) (Nat.zero_le 6) hdash hpath hclose rfl
  obtain ⟨rfl, hu⟩ := ha.unique hwhole
  cases hu
  exact ⟨b, v, hfilters, hslashes⟩

/-- A path that jams does so in parentheses. -/
theorem JamsPath.enclosed (h : JamsPath t) : JamsPath ('(' :: t) := by
  refine ⟨rfl, fun {s r r' e} hs he => ?_⟩
  obtain ⟨a, u, -, -, ha, -, -⟩ := of_gives_path_enclosed hs he
  -- The reader would have to meet the closing parenthesis, but it is stuck before.
  have hr : isStuck (')' :: u) = true :=
    (h.operand (Nat.zero_le 6)).stuck (skip_of_begins h.begins r) ha
  exact absurd rfl (head?_of_isStuck hr (by decide))

/-- The predicates of a set are read as those of a step are. -/
theorem exists_predicates_of_filters (h : Gives (readFilters a s) e r) :
    ∃ es, Gives (readPredicates s) es r := by
  obtain ⟨n, hn⟩ : ∃ n, s.length = n := ⟨_, rfl⟩
  induction n using Nat.strongRecOn generalizing a s with
  | ind n ih =>
    subst hn
    rcases head?_cases '[' (skip s).val with hs | ⟨t, ht⟩
    · obtain ⟨-, rfl⟩ := h.unique (gives_filters_stop a hs)
      exact ⟨[], gives_predicates_stop hs⟩
    · obtain ⟨b, u, hb, hrest⟩ := of_gives_filters_step ht h
      have hshorter := length_lt_of_skip ht (Nat.le_of_lt (Nat.lt_of_succ_lt hb.1))
      obtain ⟨es, hes⟩ := ih u.length hshorter hrest rfl
      exact ⟨b :: es, gives_predicates_step ht hb hes⟩

/-- A predicate that fails makes the path fail, behind a step as behind a set. -/
theorem Tracks.jams (h : Tracks t p) (hv : JamsPredicate v) : JamsPath (t ++ v) := by
  cases p with
  | step start axis test predicates => exact h.jams_given hv
  | set c =>
    obtain ⟨⟨u, rfl⟩, hfails⟩ := hv
    refine ⟨begins_append h.begins _, fun {s r r' a} hs he => ?_⟩
    obtain ⟨b, s', hfilters, -⟩ := h.resumes (by rw [hs, List.append_assoc]) rfl he
    obtain ⟨es, hes⟩ := exists_predicates_of_filters hfilters
    exact absurd hes (hfails (skip_cons rfl (u ++ r)))

/-! ## Paths from the document

Behind one slash the reader looks whether a step can follow. If so the path goes on with the steps,
and if not it is the document. -/

/-- Behind a slash and what can be a step, a relative path has been read. -/
theorem of_gives_afterSlash_step (hs : s.head? ≠ some '/') (hm : mayFollowRoot (skip s).val = true)
    (hn : (skip (skip s).val).val.head? ≠ some '/') (h : Gives (readAfterSlash a s) e r) :
    Gives (readRelative a (skip s).val) e r := by
  rcases hk : skip s with ⟨t, ht⟩
  rw [hk] at hm hn
  obtain ⟨_, h⟩ := h
  rw [readAfterSlash, take?_eq_none hs, hk] at h
  simp only [hm, if_true] at h
  split at h
  · cases h
  · next b r' q hb =>
    split at h
    · next w hw =>
      cases h
      have hb : Gives (readRelative a t) b r' := ⟨q, hb⟩
      obtain ⟨c, u, -, hsteps⟩ := of_gives_relative hn hb
      -- Behind the steps no slash is left.
      obtain ⟨rfl, hr⟩ := Gives.unique ⟨_, hw⟩ (gives_moreSlashes b (head?_of_gives_steps hsteps))
      show Gives _ e w.val
      rwa [hr]
    · cases h

/-- A slash that nothing may follow is the document. -/
theorem of_gives_afterSlash_alone (hs : s.head? ≠ some '/')
    (hm : mayFollowRoot (skip s).val = false) (hn : (skip s).val.head? ≠ some '/')
    (h : Gives (readAfterSlash a s) e r) : e = a ∧ r = (skip s).val := by
  rcases hk : skip s with ⟨t, ht⟩
  rw [hk] at hm hn
  obtain ⟨_, h⟩ := h
  rw [readAfterSlash, take?_eq_none hs, hk] at h
  simp only [hm, Bool.false_eq_true, if_false] at h
  split at h
  · next w hw =>
    cases h
    exact Gives.unique ⟨_, hw⟩ (gives_moreSlashes a hn)
  · cases h

variable {axis : Axis} {test : NodeTest}

theorem mayFollowRoot_append (hu : mayFollowRoot u = true) (r : Text) :
    mayFollowRoot (u ++ r) = true := by
  cases u with
  | nil => cases hu
  | cons c u => exact hu

/-- The first step of a path from the document. -/
theorem Tracks.root (ht : ReadsTest u axis test) (hu : mayFollowRoot u = true) :
    Tracks ('/' :: u) (.step .root axis test []) := by
  refine ⟨rfl, fun {s r r' e} hs hr he => resumes_of_relative ht hr ?_⟩
  have hskip := skip_of_beginsStep ht.begins r
  have hslash := head?_of_beginsStep (d := '/') ht.begins (by decide) r
  have := of_gives_afterSlash_step hslash (by rw [hskip]; exact mayFollowRoot_append hu r)
    (by rw [hskip, hskip]; exact hslash) (of_gives_path_of_slash hs he)
  rwa [hskip] at this

/-- A step that jams makes the path from the document jam. -/
theorem JamsTest.root (h : JamsTest u) (hu : mayFollowRoot u = true) : JamsPath ('/' :: u) := by
  refine ⟨rfl, fun {s r r' e} hs he => ?_⟩
  have hskip := h.skip r
  have hslash := (h.head? r).1
  have := of_gives_afterSlash_step hslash (by rw [hskip]; exact mayFollowRoot_append hu r)
    (by rw [hskip, hskip]; exact hslash) (of_gives_path_of_slash hs he)
  rw [hskip] at this
  exact h.stuck_relative this

end

end TreeQuery.XPath.Expr
