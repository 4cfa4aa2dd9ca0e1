import TreeQuery.Proofs.XPath.Enclosed
import TreeQuery.XPath.Evaluation

/-!
# Where a path begins astray

A slash that no step may follow is the document by itself, and what stands behind it is read as
something else: a hyphen as a minus sign, and anything else not at all. So what has been read in the
end is an operation on the document and something else, which is no set of nodes. Parentheses around
it, predicates and steps behind it do not make it one.

Main statements: `strays_root`, `Strays.enclosed` and `nodes?_eval_of_isOperation`.
-/

namespace TreeQuery.XPath.Expr

/-- Whether an expression is an operation on values, or a path that starts from one. -/
def isOperation : Expr → Bool
  | binary .union a _ => a.isOperation
  | binary _ _ _ => true
  | step start _ _ _ => start.isOperation
  | filter set _ => set.isOperation
  | _ => false

theorem isOperation_binary {o : Operator} (h : o ≠ .union) (a b : Expr) :
    (binary o a b).isOperation = true := by
  cases o <;> first | rfl | exact absurd rfl h

/-! ## Values

Of operations only the union comes to nodes, and it does so only if both its operands do. A step or
a predicate needs nodes to begin with, so that what starts from an operation has no value. -/

theorem nodes?_apply {o : Operator} (h : o ≠ .union) (d : Document) (v w : Value) :
    (o.apply d v w).bind Value.nodes? = none := by
  cases o <;> first | rfl | exact absurd rfl h

/-- An operation is no set of nodes. -/
theorem nodes?_eval_of_isOperation {e : Expr} (h : e.isOperation = true) (d : Document)
    (focus : Focus) : (eval d focus e).bind Value.nodes? = none := by
  cases e with
  | number _ | literal _ | «variable» _ | call _ _ | negated _ | converted _ | root | here => cases h
  | step start axis test predicates =>
    rw [eval, nodes?_eval_of_isOperation (e := start) h d focus]
    rfl
  | filter set predicate =>
    rw [eval, nodes?_eval_of_isOperation (e := set) h d focus]
    rfl
  | binary o a b =>
    rw [eval]
    cases ha : eval d focus a with
    | none => rfl
    | some v =>
      simp only
      cases hv : o.decided v with
      | some t => rfl
      | none =>
        cases hb : eval d focus b with
        | none => rfl
        | some w =>
          by_cases ho : o = .union
          · -- A union of what is no set of nodes has no value at all.
            subst ho
            have hnone := nodes?_eval_of_isOperation (e := a) h d focus
            rw [ha] at hnone
            cases v with
            | nodes ns => cases hnone
            | boolean _ | number _ | text _ => rfl
          · exact nodes?_apply ho d v w

/-! ## Reading

Whatever is read behind an operation has it as its start or as its first operand. This is shown for
each of the readers that go on behind something. -/

section

variable {a e : Expr} {s r r' t u : Text}

theorem isOperation_of_branches (h : Gives (readBranches a s) e r) (ha : a.isOperation = true) :
    e.isOperation = true := by
  obtain ⟨n, hn⟩ : ∃ n, s.length = n := ⟨_, rfl⟩
  induction n using Nat.strongRecOn generalizing a s with
  | ind n ih =>
    subst hn
    rcases head?_cases '|' (skip s).val with hs | ⟨t, ht⟩
    · obtain ⟨rfl, -⟩ := h.unique (gives_branches_stop a hs)
      exact ha
    · obtain ⟨b, u, hb, hrest⟩ := of_gives_branches_step ht h
      exact ih u.length (length_lt_of_skip ht (Nat.le_of_lt hb.1)) hrest ha rfl

theorem isOperation_of_filters (h : Gives (readFilters a s) e r) (ha : a.isOperation = true) :
    e.isOperation = true := by
  obtain ⟨n, hn⟩ : ∃ n, s.length = n := ⟨_, rfl⟩
  induction n using Nat.strongRecOn generalizing a s with
  | ind n ih =>
    subst hn
    rcases head?_cases '[' (skip s).val with hs | ⟨t, ht⟩
    · obtain ⟨rfl, -⟩ := h.unique (gives_filters_stop a hs)
      exact ha
    · obtain ⟨b, u, hb, hrest⟩ := of_gives_filters_step ht h
      exact ih u.length (length_lt_of_skip ht (Nat.le_of_lt (Nat.lt_of_succ_lt hb.1))) hrest ha rfl

theorem isOperation_of_step (h : Gives (readStep a s) e r) (ha : a.isOperation = true) :
    e.isOperation = true := by
  rcases head?_cases '.' (skip s).val with hs | ⟨t, ht⟩
  · obtain ⟨axis, test, predicates, -, -, -, rfl⟩ := of_gives_step hs h
    exact ha
  · -- A point is the element itself, two points are its parent.
    obtain ⟨p, hp⟩ := next?_of_skip ht
    obtain ⟨_, h⟩ := h
    rw [readStep, hp] at h
    simp only at h
    split at h
    · cases h
      exact ha
    · cases h
      exact ha

theorem isOperation_of_stepAfterSlash (h : Gives (readStepAfterSlash a s) e r)
    (ha : a.isOperation = true) : e.isOperation = true := by
  rcases head?_cases '/' s with hs | ⟨t, rfl⟩
  · exact isOperation_of_step (of_gives_stepAfterSlash_step hs h) ha
  · exact isOperation_of_step (of_gives_stepAfterSlash_descend h) ha

theorem isOperation_of_steps (h : Gives (readSteps a s) e r) (ha : a.isOperation = true) :
    e.isOperation = true := by
  obtain ⟨n, hn⟩ : ∃ n, s.length = n := ⟨_, rfl⟩
  induction n using Nat.strongRecOn generalizing a s with
  | ind n ih =>
    subst hn
    rcases head?_cases '/' (skip s).val with hs | ⟨t, ht⟩
    · obtain ⟨rfl, -⟩ := h.unique (gives_steps_stop a hs)
      exact ha
    · obtain ⟨b, u, hb, hrest⟩ := of_gives_steps_step ht h
      exact ih u.length (length_lt_of_skip ht (Nat.le_of_lt hb.1)) hrest
        (isOperation_of_stepAfterSlash hb ha) rfl

theorem isOperation_of_relative (h : Gives (readRelative a s) e r) (ha : a.isOperation = true) :
    e.isOperation = true := by
  rcases head?_cases '/' (skip s).val with hs | ⟨t, ht⟩
  · obtain ⟨b, u, hb, hrest⟩ := of_gives_relative hs h
    exact isOperation_of_steps hrest (isOperation_of_step hb ha)
  · obtain ⟨p, hp⟩ := next?_of_skip ht
    obtain ⟨_, h⟩ := h
    rw [readRelative, hp] at h
    simp only at h
    split at h
    · cases h
    · next b u q hb =>
      split at h
      · next hrest =>
        cases h
        exact isOperation_of_steps ⟨_, hrest⟩ (isOperation_of_stepAfterSlash ⟨q, hb⟩ ha)
      · cases h

theorem isOperation_of_slashes (h : Gives (readSlashes a s) e r) (ha : a.isOperation = true) :
    e.isOperation = true := by
  rcases head?_cases '/' s with hs | ⟨t, rfl⟩
  · obtain ⟨rfl, -⟩ := h.unique (gives_slashes_stop a hs)
    exact ha
  · rcases head?_cases '/' t with ht | ⟨u, rfl⟩
    · obtain ⟨b, u, hb, hrest⟩ := of_gives_slashes_step ht h
      exact isOperation_of_steps hrest (isOperation_of_step hb ha)
    · exact isOperation_of_relative (of_gives_slashes_descend h) ha

/-! ## Texts that stray

That a text strays is said of what the reader of an operand does with it, whatever stands behind. If
the reader is left in front of something that is no closing parenthesis, then in parentheses nothing
is read, and without them something is left over. -/

/-- A text on which the reader of an operand reads an operation, or ends where more is left than a
closing parenthesis. -/
structure Strays (t : Text) : Prop where
  begins : begins t = true
  stray {s r r' : Text} {e : Expr} : (skip s).val = t ++ r → Gives (readLevel levels s) e r' →
    e.isOperation = true ∨ ∃ c v, (skip r').val = c :: v ∧ c ≠ ')'

/-- Behind a slash and a character that cannot follow it there is at most an operation. -/
theorem strays_root {c : Char} (hspace : Text.isSpace c = false)
    (hc : c ≠ '/' ∧ c ≠ '|' ∧ c ≠ ')') (hm : mayFollowRoot (c :: u) = false) :
    Strays ('/' :: c :: u) := by
  refine ⟨rfl, fun {s r r' e} hs he => ?_⟩
  have hskip : (skip (c :: (u ++ r))).val = c :: (u ++ r) := skip_cons hspace _
  obtain ⟨a, w, hunion, hresult⟩ := of_gives_levels (k := 0) (Nat.zero_le 6)
    (by rw [hs]; exact nofun) he
  obtain ⟨b, v, hpath, hbranches⟩ := of_gives_union hunion
  -- The path is the document by itself, and no bar follows it.
  obtain ⟨rfl, rfl⟩ := of_gives_afterSlash_alone (s := c :: (u ++ r)) (by simpa using hc.1)
    (by rw [hskip]; exact hm) (by rw [hskip]; simpa using hc.1)
    (of_gives_path_of_slash (by simpa using hs) hpath)
  rw [hskip] at hbranches
  have hstop := gives_branches_stop (s := c :: (u ++ r)) .root (by rw [hskip]; simpa using hc.2.1)
  obtain ⟨rfl, rfl⟩ := hbranches.unique hstop
  rcases hresult with ⟨rfl, hr⟩ | ⟨o, x, y, rfl, ho⟩
  · rw [hskip, hskip] at hr
    exact .inr ⟨c, u ++ r, hr, hc.2.2⟩
  · exact .inl (isOperation_binary ho x y)

/-- In parentheses nothing else has room. -/
theorem Strays.enclosed (h : Strays t) : Strays ('(' :: t) := by
  refine ⟨rfl, fun {s r r' e} hs he => .inl ?_⟩
  obtain ⟨a, w, hunion, hresult⟩ := of_gives_levels (k := 0) (Nat.zero_le 6)
    (by rw [hs]; exact nofun) he
  obtain ⟨b, v, hpath, hbranches⟩ := of_gives_union hunion
  obtain ⟨x, u, y, u', hx, hy, hb⟩ := of_gives_path_enclosed (by simpa using hs) hpath
  have hxoperation : x.isOperation = true := by
    have hclose : (skip (')' :: u)).val = ')' :: u := skip_cons rfl u
    rcases h.stray (skip_of_begins h.begins r) hx with hx | ⟨c, v, hc, hne⟩
    · exact hx
    · rw [hclose] at hc
      exact absurd (List.head_eq_of_cons_eq hc).symm hne
  have ha : a.isOperation = true := isOperation_of_branches hbranches
    (isOperation_of_slashes hb (isOperation_of_filters hy hxoperation))
  rcases hresult with ⟨rfl, -⟩ | ⟨o, x, y, rfl, ho⟩
  · exact ha
  · exact isOperation_binary ho x y

/-- An expression that begins astray is an operation. -/
theorem Strays.isOperation (h : Strays t) (he : ofText? t = some e) : e.isOperation = true := by
  have hskip := skip_of_begins h.begins []
  rw [List.append_nil] at hskip
  rw [Expr.ofText?] at he
  -- Nothing may be left behind an expression, so that only an operation remains.
  split at he
  · next b r p hp =>
    split at he
    · next hempty =>
      cases he
      rw [List.isEmpty_iff] at hempty
      subst hempty
      rcases h.stray (r := []) (by rw [List.append_nil]; exact hskip) ⟨p, hp⟩ with ho | ⟨c, v, hc, -⟩
      · exact ho
      · cases hc
    · cases he
  · cases he

end

end TreeQuery.XPath.Expr
