import TreeQuery.Proofs.Compilation.Meaning

/-!
# Compiling within a limit

The limit is on the levels that are compiled. A selector at a level is looked up, compiled from what
it holds, one level deeper, and entered. Whatever sound cache there is, the outcome is the
expression of the selector unless there are too few levels.

Main statement: `compileAt_follows`.
-/

namespace TreeQuery

open Pattern Compilation SelectorError

namespace Selector

/-! ## One level

With a cache, a level has two ways: a selector that is known is answered and the memory stays, one
that is not is compiled from its parts and entered. These are stated as two lemmas with the outcome
and the cache, so that no proof below has to open the definition again. The event for a missing
selector changes the memory, but not its cache. -/

/-- A selector of one alternative is compiled as the chain of its compounds. -/
theorem compileUncached_single {s : Text} (hblank : Text.isAllBlank s = false)
    (hone : (alternatives s).length = 1) (compile : Text → Compilation Text) :
    compileUncached compile s = Compilation.ofExcept (Compound.readChain (tokens s)) >>= fun chain =>
      if chain.isEmpty then .fail (.emptySelector (some s))
      else Compound.locationPath compile chain := by
  have hseveral : ¬ 1 < (alternatives s).length := by omega
  rw [compileUncached]
  simp only [hblank, if_neg Bool.false_ne_true, if_neg hseveral]
  rfl

section

variable {n d : Nat} {s : Text} {m : Memory}

def missing (s : Text) (m : Memory) : Memory := { m with events := .missed s :: m.events }

/-- Without a cache a level is only the compilation from the parts. -/
theorem run_compileAt_false (n d : Nat) (s : Text) (m : Memory) :
    (compileAt false (n + 1) d s).outcome m =
        (compileUncached (compileAt false n (d + 1)) s).outcome m ∧
      ((compileAt false (n + 1) d s).after m).cache =
        ((compileUncached (compileAt false n (d + 1)) s).after m).cache := by
  have h : compileAt false (n + 1) d s =
      compileUncached (compileAt false n (d + 1)) s >>= fun x =>
        (do record (.compiled s x); return x) := rfl
  rw [h]
  cases ho : (compileUncached (compileAt false n (d + 1)) s).outcome m with
  | error e => exact ⟨outcome_bind_of_error ho, congrArg _ (after_bind_of_error ho)⟩
  | ok x => exact ⟨outcome_bind_of_ok ho, by rw [after_bind_of_ok ho]; rfl⟩

theorem compileAt_true (n d : Nat) (s : Text) :
    compileAt true (n + 1) d s = cached? s >>= fun
      | some x => pure x
      | none => record (.missed s) >>= fun _ =>
        compileUncached (compileAt true n (d + 1)) s >>= fun x =>
          (do record (.compiled s x); remember s x; return x) := by
  rw [compileAt]
  simp only [if_true]
  congr 1
  funext o
  cases o <;> rfl

/-- A selector that is known is answered from the cache, and nothing changes. -/
theorem run_compileAt_of_get? {x : Text} (h : m.cache.get? s = some x) :
    (compileAt true (n + 1) d s).outcome m = .ok x ∧ (compileAt true (n + 1) d s).after m = m := by
  have hc : (cached? s).outcome m = .ok (some x) := congrArg Except.ok h
  rw [compileAt_true, outcome_bind_of_ok hc, after_bind_of_ok hc]
  exact ⟨rfl, rfl⟩

/-- A selector that is not known is compiled from its parts, and entered if it has an outcome. -/
theorem run_compileAt_of_none (h : m.cache.get? s = none) :
    (compileAt true (n + 1) d s).outcome m =
        (compileUncached (compileAt true n (d + 1)) s).outcome (missing s m) ∧
      ((compileAt true (n + 1) d s).after m).cache =
        match (compileUncached (compileAt true n (d + 1)) s).outcome (missing s m) with
        | .ok x =>
          ((compileUncached (compileAt true n (d + 1)) s).after (missing s m)).cache.insert s x
        | .error _ => ((compileUncached (compileAt true n (d + 1)) s).after (missing s m)).cache := by
  have hc : (cached? s).outcome m = .ok none := congrArg Except.ok h
  rw [compileAt_true, outcome_bind_of_ok hc, after_bind_of_ok hc]
  have hr : (record (.missed s)).outcome m = .ok () := rfl
  show ((record (.missed s) >>= _).outcome m) = _ ∧ ((record (.missed s) >>= _).after m).cache = _
  rw [outcome_bind_of_ok hr, after_bind_of_ok hr]
  have hm : (record (.missed s)).after m = missing s m := rfl
  rw [hm]
  cases ho : (compileUncached (compileAt true n (d + 1)) s).outcome (missing s m) with
  | error e => exact ⟨outcome_bind_of_error ho, by rw [after_bind_of_error ho]⟩
  | ok x => exact ⟨outcome_bind_of_ok ho, by rw [after_bind_of_ok ho]; rfl⟩

end

/-! ## All levels

The induction is on the levels that are left. At each level the parts follow their meanings by the
hypothesis and one step of compilation does so for the whole; looking up and entering are held
against the meaning by the soundness of the cache. That there are enough levels is said in two ways,
by the length of the selector and by the depth of its pattern, since some uses know the one and some
the other. -/

/-- What a selector holds fits into one level less. -/
theorem Holds.fits {s t : Text} (h : Holds s t) {n : Nat}
    (hs : s.length < n + 1 ∨ ∃ p, pattern s = .ok p ∧ p.nesting < n + 1) :
    t.length < n ∨ ∃ p, pattern t = .ok p ∧ p.nesting < n := by
  rcases hs with hs | ⟨p, hp, hn⟩
  · have := h.length_lt
    left; omega
  · obtain ⟨c, hc, hlt⟩ := h.exists_chain hp
    refine .inr ⟨[c], by rw [h.pattern_eq, hc]; rfl, ?_⟩
    have hn : nesting [c] = c.nesting := by simp [nesting, nestingOfChains]
    omega

/-- At any level a selector comes to its expression, unless there are too few levels for it. There
are enough for a selector that is shorter than they are many, or whose pattern is nested less
deeply. -/
theorem compileAt_follows (useCache : Bool) (n d : Nat) (s : Text) :
    Follows id (s.length + 1) (s.length < n ∨ ∃ p, pattern s = .ok p ∧ p.nesting < n)
      (compileAt useCache n d s) (compileAt false n d s) (expression s) := by
  induction n generalizing d s with
  | zero =>
    refine ⟨fun m hm => .refl hm, fun m _ => .inr ⟨s, d, rfl⟩, fun m _ h m' => ⟨s, d, rfl⟩,
      fun m => .inr ⟨⟨s, d, rfl⟩, ?_⟩⟩
    rintro (h | ⟨p, -, h⟩) <;> omega
  | succ n ih =>
    -- What is compiled from the parts, with the same hypothesis for all of them.
    have hu : Follows id s.length (s.length < n + 1 ∨ ∃ p, pattern s = .ok p ∧ p.nesting < n + 1)
        (compileUncached (compileAt useCache n (d + 1)) s)
        (compileUncached (compileAt false n (d + 1)) s) (expression s) :=
      compileUncached_follows fun t ht => (ih (d + 1) t).mono ht.length_lt ht.fits
    -- With the cache a level looks for the selector first, and enters what it comes to.
    cases useCache with
    | false =>
      refine ⟨fun m hm => ?_, fun m hm => ?_, fun m hm hd m' => ?_, fun m => ?_⟩
      · rw [(run_compileAt_false n d s m).2]
        exact (hu.grows m hm).mono (Nat.le_succ _)
      · rw [(run_compileAt_false n d s m).1]
        exact hu.outcome m hm
      · rw [(run_compileAt_false n d s _).1] at *
        exact hu.tooDeep m hm hd m'
      · rw [(run_compileAt_false n d s m).1]
        exact hu.outcome_plain m
    | true =>
      refine ⟨fun m hm => ?_, fun m hm => ?_, fun m hm hd m' => ?_, fun m => ?_⟩
      · cases hg : m.cache.get? s with
        | some x =>
          rw [(run_compileAt_of_get? hg).2]
          exact .refl hm
        | none =>
          have hgrows := hu.grows (missing s m) hm
          rw [(run_compileAt_of_none hg).2]
          cases ho : (compileUncached (compileAt true n (d + 1)) s).outcome (missing s m) with
          | error e => exact hgrows.mono (Nat.le_succ _)
          | ok x =>
            have hx := (hu.outcome (missing s m) hm).resolve_right
              (by rintro ⟨s, d, hd⟩; rw [ho] at hd; cases hd)
            rw [ho] at hx
            exact (hgrows.mono (Nat.le_succ _)).trans (.insert hgrows.sound hx.symm)
      · cases hg : m.cache.get? s with
        | some x =>
          rw [(run_compileAt_of_get? hg).1]
          exact .inl (hm.expression_eq hg).symm
        | none =>
          rw [(run_compileAt_of_none hg).1]
          exact hu.outcome _ hm
      · rw [(run_compileAt_false n d s m').1]
        cases hg : m.cache.get? s with
        | some x =>
          rw [(run_compileAt_of_get? hg).1] at hd
          obtain ⟨_, _, hd⟩ := hd
          cases hd
        | none =>
          rw [(run_compileAt_of_none hg).1] at hd
          exact hu.tooDeep (missing s m) hm hd m'
      · rw [(run_compileAt_false n d s m).1]
        exact hu.outcome_plain m

/-- A selector for which there are enough levels comes to the expression of its pattern, whatever
sound cache there is. -/
theorem outcome_of_fits {settings : Settings} {s : Text} {p : Pattern} (hp : pattern s = .ok p)
    (hn : s.length < settings.levels ∨ p.nesting < settings.levels) {m : Memory}
    (hm : m.cache.Sound) : (compile settings s).outcome m = .ok p.xpath := by
  have hf := compileAt_follows settings.useCache settings.levels 0 s
  have hplain : ¬ TooDeep ((compileAt false settings.levels 0 s).outcome m) := by
    intro hd
    rcases hf.outcome_plain m with h | ⟨-, h⟩
    · obtain ⟨_, _, hd⟩ := hd
      rw [Except.map_id, expression, hp] at h
      rw [id, hd] at h
      cases h
    · exact h (hn.imp_right fun hn => ⟨p, hp, hn⟩)
  have ho := (hf.outcome m hm).resolve_right fun hd => hplain (hf.tooDeep m hm hd m)
  rw [Except.map_id, expression, hp] at ho
  exact ho

/-- A selector that is not nested too deeply comes to the expression of its pattern, whatever sound
cache there is. -/
theorem outcome_of_nesting_le {settings : Settings} {s : Text} {p : Pattern}
    (hp : pattern s = .ok p) (hn : (p.nesting : Int) ≤ settings.maxDepth) {m : Memory}
    (hm : m.cache.Sound) : (compile settings s).outcome m = .ok p.xpath := by
  refine outcome_of_fits hp (.inr ?_) hm
  rw [Settings.levels]
  omega

/-- So does a selector that is not longer than the limit. -/
theorem outcome_of_length_le {settings : Settings} {s : Text} {p : Pattern}
    (hp : pattern s = .ok p) (hn : (s.length : Int) ≤ settings.maxDepth) {m : Memory}
    (hm : m.cache.Sound) : (compile settings s).outcome m = .ok p.xpath := by
  refine outcome_of_fits hp (.inl ?_) hm
  rw [Settings.levels]
  omega

/-- What a selector is compiled to without a cache, it is compiled to with any sound one. -/
theorem outcome_of_outcome_false {settings : Settings} {s x : Text} {m m' : Memory}
    (h : (compile { settings with useCache := false } s).outcome m' = .ok x)
    (hm : m.cache.Sound) : (compile settings s).outcome m = .ok x := by
  have hf := compileAt_follows settings.useCache settings.levels 0 s
  have h : (compileAt false settings.levels 0 s).outcome m' = .ok x := h
  have hplain : ¬ TooDeep ((compileAt false settings.levels 0 s).outcome m') := by
    rintro ⟨_, _, hdeep⟩
    cases h.symm.trans hdeep
  have ho := (hf.outcome m hm).resolve_right fun hd => hplain (hf.tooDeep m hm hd m')
  have hx := (hf.outcome_plain m').resolve_right fun hd => hplain hd.1
  rw [h] at hx
  rw [Except.map_id] at ho
  exact ho.trans hx.symm

/-- A selector that comes to anything with a sound cache comes to the expression of its pattern. -/
theorem exists_pattern_of_outcome {settings : Settings} {s x : Text} {m : Memory}
    (hm : m.cache.Sound) (h : (compile settings s).outcome m = .ok x) :
    ∃ p, pattern s = .ok p ∧ x = p.xpath := by
  have hf := compileAt_follows settings.useCache settings.levels 0 s
  rcases hf.outcome m hm with ho | ⟨_, _, ho⟩
  · rw [Except.map_id] at ho
    obtain ⟨p, hp, he⟩ := Except.map_eq_ok (ho.symm.trans h)
    exact ⟨p, hp, he.symm⟩
  · cases h.symm.trans ho

/-- A limit that is not reached makes no difference, nor does a sound cache. -/
theorem outcome_of_not_tooDeep {settings : Settings} {s : Text} {m : Memory} (hm : m.cache.Sound)
    (h : ¬ TooDeep ((compile settings s).outcome m)) :
    (compile settings s).outcome m = expression s := by
  have hf := (compileAt_follows settings.useCache settings.levels 0 s).outcome m hm
  rw [Except.map_id] at hf
  exact hf.resolve_right h

/-- One level is compiled from what the selector holds, and only shorter selectors are entered. -/
theorem compileUncached_level_follows (useCache : Bool) (n d : Nat) (s : Text) :
    Follows id s.length (s.length < n + 1 ∨ ∃ p, pattern s = .ok p ∧ p.nesting < n + 1)
      (compileUncached (compileAt useCache n (d + 1)) s)
      (compileUncached (compileAt false n (d + 1)) s) (expression s) :=
  compileUncached_follows fun _ ht => (compileAt_follows _ _ _ _).mono ht.length_lt ht.fits

/-- A selector that has no outcome is not entered. -/
theorem grows_of_error {useCache : Bool} {n d : Nat} {s : Text} {m : Memory} (hm : m.cache.Sound)
    {e : SelectorError} (h : (compileAt useCache n d s).outcome m = .error e) :
    m.cache.Grows s.length ((compileAt useCache n d s).after m).cache := by
  cases n with
  | zero => exact .refl hm
  | succ n =>
    have hu := compileUncached_level_follows useCache n d s
    cases useCache with
    | false =>
      rw [(run_compileAt_false n d s m).2]
      exact hu.grows m hm
    | true =>
      cases hg : m.cache.get? s with
      | some x => rw [(run_compileAt_of_get? hg).1] at h; cases h
      | none =>
        rw [(run_compileAt_of_none hg).1] at h
        rw [(run_compileAt_of_none hg).2, h]
        exact hu.grows (missing s m) hm

/-- A selector that is compiled without any other one comes to the same at every level within the
limit, whatever sound cache there is. -/
theorem outcome_of_uncached {s : Text} {r : Except SelectorError Text} (hr : ¬ TooDeep r)
    (h : ∀ compile, compileUncached compile s = Compilation.ofExcept r) (settings : Settings)
    {m : Memory} (hm : m.cache.Sound) :
    (compile settings s).outcome m =
      if settings.maxDepth < 0 then .error (.nestingTooDeep s 0) else r := by
  -- Such a selector does not look at the memory at all.
  have hof : ∀ m, (Compilation.ofExcept r).outcome m = r := by
    intro m
    cases r <;> rfl
  split
  · next hdepth =>
    have hlevels : settings.levels = 0 := by
      rw [Settings.levels]
      omega
    rw [compile, hlevels]
    rfl
  · next hdepth =>
    obtain ⟨n, hn⟩ : ∃ n, settings.levels = n + 1 :=
      ⟨settings.maxDepth.toNat, by rw [Settings.levels]; omega⟩
    -- Without a cache the selector comes to the same with many levels, which is its expression.
    have hexpression : expression s = r := by
      have hf := compileAt_follows false (s.length + 1) 0 s
      have hplain := (run_compileAt_false s.length 0 s m).1
      rw [h, hof] at hplain
      rcases hf.outcome_plain m with ho | ⟨hdeep, -⟩
      · rw [Except.map_id, id, hplain] at ho
        exact ho.symm
      · rw [hplain] at hdeep
        exact absurd hdeep hr
    rw [compile, hn]
    cases settings.useCache with
    | false => rw [(run_compileAt_false n 0 s m).1, h, hof]
    | true =>
      cases hget : m.cache.get? s with
      | some x => rw [(run_compileAt_of_get? hget).1, ← hexpression, hm.expression_eq hget]
      | none => rw [(run_compileAt_of_none hget).1, h, hof]

end Selector

end TreeQuery
