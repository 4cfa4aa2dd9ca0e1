import TreeQuery.Proofs.Compilation.Calls
import TreeQuery.Proofs.Compilation.Levels

/-!
# The limit is a threshold

Without a cache, a selector is compiled level by level until the levels are used up. For each
selector some number of levels is just enough. With fewer, the limit is met at the first level that
is not there; with more, nothing changes any more. That number is at most one more than the length
of the selector, since each level is about shorter selectors than the one before. For the same
reason compilation ends without any limit.

Main statement: `Selector.maxDepth_threshold`.
-/

namespace TreeQuery

open Compilation SelectorError

/-! ## Families that settle

A compilation with any number of levels left is a family indexed by that number. Settling is a
property of families that is kept: when one goes on with another, the threshold of both is the
larger of the two. Below it the fault is that of the part that does not settle first, and it names
the level that is missing, which is the depth of the selector and the levels that it had together.
-/

/-- A family of compilations, by the number of levels that are left at a depth: from a threshold on
they come to one result, and below it to the fault of the limit, at the level that is missing. -/
structure SettlesAt {α : Type} (depth threshold : Nat) (r : Except SelectorError α)
    (a : Nat → Compilation α) : Prop where
  settled : ∀ n m, threshold ≤ n → (a n).outcome m = r
  stopped : ∀ n, n < threshold → ∃ t, ∀ m,
    (a n).outcome m = .error (.nestingTooDeep t (depth + n))
  not_tooDeep : ¬ TooDeep r

/-- A family that settles with at most so many levels. -/
def Settles (depth bound : Nat) (α : Type) (a : Nat → Compilation α) : Prop :=
  ∃ N ≤ bound, ∃ r, SettlesAt depth N r a

namespace Settles

variable {α β : Type} {depth bound : Nat}

/-- What does not look at the levels has settled. -/
theorem const {a : Compilation α} {r : Except SelectorError α} (h : ∀ m, a.outcome m = r)
    (hr : ¬ TooDeep r) : Settles depth bound α fun _ => a :=
  ⟨0, Nat.zero_le _, r, fun _ m _ => h m, fun _ hn => absurd hn (Nat.not_lt_zero _), hr⟩

/-- A compilation that goes on with another has settled when both have. -/
theorem bind {a : Nat → Compilation α} {k : Nat → α → Compilation β} (h : Settles depth bound α a)
    (hk : ∀ v, Settles depth bound β fun n => k n v) :
    Settles depth bound β fun n => a n >>= k n := by
  obtain ⟨N, hN, r, hr⟩ := h
  cases r with
  | error _ =>
    -- Nothing comes behind a fault, so that the threshold is that of the first part.
    refine ⟨N, hN, .error _, fun n m hn => outcome_bind_of_error (hr.settled n m hn), ?_, ?_⟩
    · intro n hn
      obtain ⟨t, ht⟩ := hr.stopped n hn
      exact ⟨t, fun m => outcome_bind_of_error (ht m)⟩
    · rintro ⟨s, d, he⟩
      cases he
      exact hr.not_tooDeep ⟨s, d, rfl⟩
  | ok v =>
    obtain ⟨N', hN', r', hr'⟩ := hk v
    refine ⟨max N N', Nat.max_le.2 ⟨hN, hN'⟩, r', fun n m hn => ?_, fun n hn => ?_,
      hr'.not_tooDeep⟩
    · rw [outcome_bind_of_ok (hr.settled n m (by omega))]
      exact hr'.settled n _ (by omega)
    · -- Below the threshold the first part is stopped, or it has settled and the second is.
      by_cases hfirst : n < N
      · obtain ⟨t, ht⟩ := hr.stopped n hfirst
        exact ⟨t, fun m => outcome_bind_of_error (ht m)⟩
      · obtain ⟨t, ht⟩ := hr'.stopped n (by omega)
        refine ⟨t, fun m => ?_⟩
        rw [outcome_bind_of_ok (hr.settled n m (by omega))]
        exact ht _

theorem kept (depth bound : Nat) : Kept (Settles depth bound) where
  pure v := const (fun _ => rfl) (ofText_ok v).not_tooDeep
  fail e he := by
    refine const (fun _ => rfl) (OfText.not_tooDeep (r := .error e) ?_)
    rintro e' h
    cases h
    exact he
  bind := bind

end Settles

namespace Selector

/-! ## Levels

A selector needs a level more than what it holds, and what it holds is shorter. So the induction on
the length gives both that there is a threshold and a bound for it. -/

/-- A level more is needed than for the selectors that are held. -/
theorem settlesAt_succ {depth N : Nat} {r : Except SelectorError Text} {s : Text}
    (h : SettlesAt (depth + 1) N r fun n => compileUncached (compileAt false n (depth + 1)) s) :
    SettlesAt depth (N + 1) r fun n => compileAt false n depth s where
  settled n m hn := by
    obtain ⟨k, rfl⟩ := Nat.exists_eq_add_of_le' (Nat.le_trans (Nat.le_add_left 1 N) hn)
    rw [(run_compileAt_false k depth s m).1]
    exact h.settled k m (by omega)
  stopped n hn := by
    cases n with
    | zero => exact ⟨s, fun _ => rfl⟩
    | succ k =>
      obtain ⟨t, ht⟩ := h.stopped k (by omega)
      refine ⟨t, fun m => (run_compileAt_false k depth s m).1.trans ((ht m).trans ?_)⟩
      rw [Nat.add_right_comm, Nat.add_assoc]
  not_tooDeep := h.not_tooDeep

/-- A selector settles within as many levels as it has characters, and the one level for itself.
The induction is on its length. -/
theorem exists_settlesAt (s : Text) (depth : Nat) :
    ∃ N ≤ s.length, ∃ r, SettlesAt depth (N + 1) r fun n => compileAt false n depth s := by
  induction h : s.length using Nat.strong_induction_on generalizing s depth with
  | _ length ih =>
    subst h
    have held : ∀ t, Holds s t →
        Settles (depth + 1) s.length Text fun n => compileAt false n (depth + 1) t := by
      intro t ht
      obtain ⟨N, hN, r, hr⟩ := ih t.length ht.length_lt t (depth + 1) rfl
      exact ⟨N + 1, Nat.lt_of_le_of_lt hN ht.length_lt, r, hr⟩
    obtain ⟨N, hN, r, hr⟩ := (Settles.kept (depth + 1) s.length).compileUncached held
    exact ⟨N, hN, r, settlesAt_succ hr⟩

/-- Without a cache, what has been compiled before makes no difference. -/
theorem outcome_compileAt_false (n depth : Nat) (s : Text) (m m' : Memory) :
    (compileAt false n depth s).outcome m = (compileAt false n depth s).outcome m' := by
  obtain ⟨N, -, r, hr⟩ := exists_settlesAt s depth
  rcases Nat.lt_or_ge n (N + 1) with hn | hn
  · obtain ⟨t, ht⟩ := hr.stopped n hn
    rw [ht, ht]
  · rw [hr.settled n m hn, hr.settled n m' hn]

/-! ## Without a limit

The recursion without a limit asks whether a selector is shorter before it goes on; that is always
so, and the question is taken away again by an equation. With more levels than characters the limit
is never met, and both compilations are the same. -/

/-- The compilation of a selector without a limit and without a cache. The selectors that it holds
are shorter; asking for that makes the recursion end. -/
def compileUnlimited (s : Text) : Compilation Text := do
  let xpath ← compileUncached
    (fun t => if t.length < s.length then compileUnlimited t else .fail (.emptySelector none)) s
  record (.compiled s xpath)
  return xpath
termination_by s.length

/-- What makes the recursion end does not show. -/
theorem compileUnlimited_eq (s : Text) : compileUnlimited s = do
    let xpath ← compileUncached compileUnlimited s
    record (.compiled s xpath)
    return xpath := by
  rw [compileUnlimited]
  congr 1
  apply compileUncached_congr
  intro t ht
  exact if_pos ht

/-- With enough levels a selector is compiled as without a limit. -/
theorem compileAt_eq_compileUnlimited {n : Nat} {s : Text} (h : s.length < n) (depth : Nat) :
    compileAt false n depth s = compileUnlimited s := by
  induction n generalizing s depth with
  | zero => omega
  | succ k ih =>
    have hheld : compileUncached (compileAt false k (depth + 1)) s =
        compileUncached compileUnlimited s :=
      compileUncached_congr fun t ht => ih (by omega) (depth + 1)
    rw [compileUnlimited_eq, ← hheld]
    rfl

/-- Without a limit every selector comes to its expression. -/
theorem outcome_compileUnlimited (s : Text) (m : Memory) :
    (compileUnlimited s).outcome m = expression s := by
  have henough : s.length < s.length + 1 := Nat.lt_succ_self _
  rw [← compileAt_eq_compileUnlimited henough 0]
  rcases (compileAt_follows false (s.length + 1) 0 s).outcome_plain m with h | ⟨-, h⟩
  · rwa [Except.map_id] at h
  · exact absurd (.inl henough) h

/-! ## The threshold -/

/-- What a selector settles at is its expression. -/
theorem SettlesAt.eq_expression {depth N : Nat} {r : Except SelectorError Text} {s : Text}
    (h : SettlesAt depth N r fun n => compileAt false n depth s) : r = expression s := by
  have henough : N ≤ N + (s.length + 1) := Nat.le_add_right _ _
  rw [← h.settled _ {} henough, compileAt_eq_compileUnlimited (by omega), outcome_compileUnlimited]

theorem not_tooDeep_expression (s : Text) : ¬ TooDeep (expression s) := by
  obtain ⟨N, -, r, hr⟩ := exists_settlesAt s 0
  rw [← SettlesAt.eq_expression hr]
  exact hr.not_tooDeep

/-- A limit is not reached by a selector that is no longer, whatever sound cache there is. -/
theorem not_tooDeep_of_length_le {settings : Settings} {s : Text}
    (h : (s.length : Int) ≤ settings.maxDepth) {m : Memory} (hm : m.cache.Sound) :
    ¬ TooDeep ((compile settings s).outcome m) := by
  intro hdeep
  have hf := compileAt_follows settings.useCache settings.levels 0 s
  rcases hf.outcome_plain m with ho | ⟨-, hshort⟩
  · rw [Except.map_id, id] at ho
    have hplain := hf.tooDeep m hm hdeep m
    rw [ho] at hplain
    exact not_tooDeep_expression s hplain
  · apply hshort
    left
    rw [Settings.levels]
    omega

/-- For each selector, some depth within its length is just deep enough without a cache. A limit at
that depth or beyond makes no difference: the selector comes to its expression, which may be a fault
but not that of the limit. With any lower limit, also a negative one, it comes to the fault of the
limit, at the first level beyond. A selector is compiled from shorter ones only, and how others are
compiled makes no difference; therefore it comes to its expression also where there is no limit. -/
theorem maxDepth_threshold (s : Text) :
    (∃ N ≤ s.length, ¬ TooDeep (expression s) ∧
      ∀ settings : Settings, settings.useCache = false → ∀ m : Memory,
        ((N : Int) ≤ settings.maxDepth → (compile settings s).outcome m = expression s) ∧
        (settings.maxDepth < N → ∃ (t : Text) (depth : Nat),
          (compile settings s).outcome m = .error (.nestingTooDeep t depth) ∧
            (depth : Int) = max 0 (settings.maxDepth + 1))) ∧
    (∀ compile compile' : Text → Compilation Text,
      (∀ t : Text, t.length < s.length → compile t = compile' t) →
        compileUncached compile s = compileUncached compile' s) ∧
    (compileUnlimited s = do
      let xpath ← compileUncached compileUnlimited s
      record (.compiled s xpath)
      return xpath) ∧
    ∀ m : Memory, (compileUnlimited s).outcome m = expression s := by
  refine ⟨?_, fun _ _ h => compileUncached_congr h, compileUnlimited_eq s,
    outcome_compileUnlimited s⟩
  -- The number of levels from which on more of them change nothing.
  obtain ⟨N, hN, r, hr⟩ := exists_settlesAt s 0
  have he := SettlesAt.eq_expression hr
  subst he
  refine ⟨N, hN, hr.not_tooDeep, fun settings huse m => ⟨fun hmax => ?_, fun hmax => ?_⟩⟩
  · unfold compile
    rw [huse]
    apply hr.settled
    rw [Settings.levels]
    omega
  · have hlevels : settings.levels < N + 1 := by
      rw [Settings.levels]
      omega
    obtain ⟨t, ht⟩ := hr.stopped settings.levels hlevels
    refine ⟨t, 0 + settings.levels, ?_, ?_⟩
    · unfold compile
      rw [huse]
      exact ht m
    · rw [Settings.levels]
      omega

end Selector

end TreeQuery
