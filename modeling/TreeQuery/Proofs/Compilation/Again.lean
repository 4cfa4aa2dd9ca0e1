import TreeQuery.Proofs.Compilation.Calls
import TreeQuery.Proofs.Compilation.Levels

/-!
# Compiling again

A selector that is known is not compiled again, and neither are the selectors that it holds. That it
could be is a property of the cache: a cache is complete if every selector in it can be compiled
from what else is in it, at any level that is within the limit. Compiling leaves a complete cache
complete, since all that a selector holds is entered before the selector itself. Entering selectors
by hand need not.

The argument is one about pairs of runs, the first with any cache, the second with all that the
first has left behind: the second finds everything it asks for and comes to the same.

Main statements: `Selector.complete_compile`, complete caches stay complete, and
`Selector.outcome_compileUncached`, whatever is compiled can be compiled from its parts.
-/

namespace TreeQuery

open Compilation SelectorError

/-! ## The cache alone

The record of events has no part in what is compiled. That two memories with the same cache lead to
the same outcome and to the same cache again is kept when one compilation goes on with another, so
it holds of a selector at a level if it holds at the next one. -/

/-- A compilation that looks at nothing but the cache. -/
def Eventless {α : Type} (a : Compilation α) : Prop :=
  ∀ m m' : Memory, m.cache = m'.cache →
    a.outcome m = a.outcome m' ∧ (a.after m).cache = (a.after m').cache

theorem Eventless.kept : Kept fun α (a : Unit → Compilation α) => Eventless (a ()) where
  pure _ _ _ h := ⟨rfl, h⟩
  fail _ _ _ _ h := ⟨rfl, h⟩
  bind {α β a k} ha hk := by
    intro m m' h
    obtain ⟨houtcome, hafter⟩ := ha m m' h
    cases ho : (a ()).outcome m with
    | error e =>
      have ho' : (a ()).outcome m' = .error e := houtcome ▸ ho
      rw [outcome_bind_of_error ho, outcome_bind_of_error ho', after_bind_of_error ho,
        after_bind_of_error ho']
      exact ⟨rfl, hafter⟩
    | ok v =>
      have ho' : (a ()).outcome m' = .ok v := houtcome ▸ ho
      rw [outcome_bind_of_ok ho, outcome_bind_of_ok ho', after_bind_of_ok ho, after_bind_of_ok ho']
      exact hk v _ _ hafter

namespace Selector

theorem eventless_compileAt (useCache : Bool) (n d : Nat) (s : Text) :
    Eventless (compileAt useCache n d s) := by
  induction n generalizing d s with
  | zero => exact fun m m' h => ⟨rfl, h⟩
  | succ n ih =>
    -- One level is what the next ones are put together to.
    have hu : Eventless (compileUncached (compileAt useCache n (d + 1)) s) :=
      @Kept.compileUncached Unit _ (fun _ => compileAt useCache n (d + 1)) Eventless.kept s
        fun t _ => ih (d + 1) t
    intro m m' h
    cases useCache with
    | false =>
      obtain ⟨ho, ha⟩ := run_compileAt_false n d s m
      obtain ⟨ho', ha'⟩ := run_compileAt_false n d s m'
      rw [ho, ho', ha, ha']
      exact hu m m' h
    | true =>
      cases hg : m.cache.get? s with
      | some x =>
        have hg' : m'.cache.get? s = some x := h ▸ hg
        obtain ⟨ho, ha⟩ := run_compileAt_of_get? (n := n) (d := d) hg
        obtain ⟨ho', ha'⟩ := run_compileAt_of_get? (n := n) (d := d) hg'
        rw [ho, ho', ha, ha']
        exact ⟨rfl, h⟩
      | none =>
        have hg' : m'.cache.get? s = none := h ▸ hg
        obtain ⟨ho, ha⟩ := run_compileAt_of_none (n := n) (d := d) hg
        obtain ⟨ho', ha'⟩ := run_compileAt_of_none (n := n) (d := d) hg'
        obtain ⟨hu, hu'⟩ := hu (missing s m) (missing s m') h
        rw [ho, ho', ha, ha', hu, hu']
        exact ⟨rfl, rfl⟩

theorem eventless_compileUncached (useCache : Bool) (n d : Nat) (s : Text) :
    Eventless (compileUncached (compileAt useCache n d) s) :=
  @Kept.compileUncached Unit _ (fun _ => compileAt useCache n d) Eventless.kept s
    fun t _ => eventless_compileAt useCache n d t

end Selector

/-! ## Complete caches

That a selector can be compiled from what is known must go on to hold when more becomes known, as
entries are only ever added. The property of an entry is therefore stated for all memories that know
at least as much as the cache, and not for the cache alone; entering a further selector then leaves
it true by itself. It is stated for all levels with one below them, since what is found in the cache
needs one level to be looked up in. -/

namespace Cache

/-- A cache that knows all that another one knows. -/
def Keeps (before after : Cache) : Prop :=
  ∀ s x, before.get? s = some x → after.get? s = some x

theorem Keeps.refl (c : Cache) : c.Keeps c := fun _ _ h => h

theorem Keeps.trans {a b c : Cache} (h : a.Keeps b) (h' : b.Keeps c) : a.Keeps c :=
  fun s x hx => h' s x (h s x hx)

theorem keeps_insert (c : Cache) (s x : Text) : c.Keeps (c.insert s x) := by
  intro t y hy
  by_cases ht : t = s
  · subst ht
    rwa [get?_insert_of_get? hy]
  · rwa [get?_insert_of_ne ht]

/-- A cache in which every selector has all that it takes to compile it: wherever at least one level
is left for the selectors that it holds, and whatever else is known. -/
def Complete (c : Cache) : Prop :=
  ∀ s x, c.get? s = some x → ∀ (n d : Nat) (m : Memory), c.Keeps m.cache →
    (Selector.compileUncached (Selector.compileAt true (n + 1) d) s).outcome m = .ok x ∧
      ((Selector.compileUncached (Selector.compileAt true (n + 1) d) s).after m).cache = m.cache

theorem complete_empty : empty.Complete := fun _ _ h => by cases h

/-- A selector may be entered when it can be compiled from what is known. -/
theorem Complete.insert {c : Cache} (hc : c.Complete) {s x : Text}
    (h : ∀ (n d : Nat) (m : Memory), c.Keeps m.cache →
      (Selector.compileUncached (Selector.compileAt true (n + 1) d) s).outcome m = .ok x ∧
        ((Selector.compileUncached (Selector.compileAt true (n + 1) d) s).after m).cache = m.cache) :
    (c.insert s x).Complete := by
  intro t y hy n d m hinsert
  have hm : c.Keeps m.cache := (keeps_insert c s x).trans hinsert
  -- A selector that was known keeps its entry, and only a new one is the one that is entered.
  by_cases ht : t = s
  · subst ht
    cases hg : c.get? t with
    | some z =>
      rw [get?_insert_of_get? hg] at hy
      exact hc t y hy n d m hm
    | none =>
      rw [get?_insert_self hg] at hy
      cases hy
      exact h n d m hm
  · rw [get?_insert_of_ne ht] at hy
    exact hc t y hy n d m hm

end Cache

/-! ## A second run

One run and the further runs that repeat it are a family with one member more than an index type
has. The property of the family, like all that are kept, goes from the selectors that are held to
the selector itself. In the induction over the levels the first run is at the level in question, and
a further run may be at any: it looks up what the first one has entered and goes no deeper. -/

/-- A run, with any sound and complete cache, and further runs of the same. The first leaves a sound
and complete cache; the others, if they know what the first one leaves behind, come to what it has
come to and enter nothing. -/
def Replays {ι : Type} (α : Type) (a : Option ι → Compilation α) : Prop :=
  ∀ m : Memory, m.cache.Sound → m.cache.Complete →
    (m.cache.Keeps ((a none).after m).cache ∧ ((a none).after m).cache.Sound ∧
      ((a none).after m).cache.Complete) ∧
    ∀ v, (a none).outcome m = .ok v → ∀ i (m' : Memory), ((a none).after m).cache.Keeps m'.cache →
      (a (some i)).outcome m' = .ok v ∧ ((a (some i)).after m').cache = m'.cache

/-- What two runs leave one after the other, the further runs find one after the other. -/
theorem Replays.kept {ι : Type} : Kept (Replays (ι := ι)) where
  pure v m hm hc := by
    refine ⟨⟨.refl _, hm, hc⟩, ?_⟩
    intro w hw i m' _
    exact ⟨hw, rfl⟩
  fail e _ m hm hc := ⟨⟨.refl _, hm, hc⟩, fun _ h => nomatch h⟩
  bind {α β a k} ha hk := by
    intro m hm hc
    obtain ⟨⟨hkeeps, hsound, hcomplete⟩, hagain⟩ := ha m hm hc
    cases ho : (a none).outcome m with
    | error e =>
      rw [outcome_bind_of_error ho, after_bind_of_error ho]
      exact ⟨⟨hkeeps, hsound, hcomplete⟩, fun _ h => nomatch h⟩
    | ok v =>
      rw [outcome_bind_of_ok ho, after_bind_of_ok ho]
      obtain ⟨⟨hkeeps', hsound', hcomplete'⟩, hagain'⟩ := hk v _ hsound hcomplete
      refine ⟨⟨hkeeps.trans hkeeps', hsound', hcomplete'⟩, ?_⟩
      intro w hw i m' hm'
      obtain ⟨hfirst, hcache⟩ := hagain v ho i m' (hkeeps'.trans hm')
      rw [outcome_bind_of_ok hfirst, after_bind_of_ok hfirst]
      -- The first part of the further run has entered nothing.
      obtain ⟨hsecond, hcache'⟩ := hagain' w hw i _ (hcache ▸ hm')
      exact ⟨hsecond, hcache'.trans hcache⟩

namespace Selector

/-- With a cache a selector that has been compiled is known. -/
theorem get?_after_compileAt {n d : Nat} {s x : Text} {m : Memory} (hm : m.cache.Sound)
    (h : (compileAt true n d s).outcome m = .ok x) :
    ((compileAt true n d s).after m).cache.get? s = some x := by
  cases n with
  | zero => cases h
  | succ n =>
    cases hg : m.cache.get? s with
    | some y =>
      obtain ⟨ho, ha⟩ := run_compileAt_of_get? (n := n) (d := d) hg
      cases ho.symm.trans h
      rw [ha, hg]
    | none =>
      obtain ⟨ho, ha⟩ := run_compileAt_of_none (n := n) (d := d) hg
      -- No part of the selector has entered it, so that it is entered now.
      have hfresh := ((compileUncached_level_follows true n d s).grows (missing s m) hm).fresh s
        (Nat.le_refl _)
      rw [ha, ho.symm.trans h]
      exact Cache.get?_insert_self (hfresh.trans hg) x

/-- What has been compiled with a cache comes to the same again, as long as nothing is forgotten. -/
theorem outcome_compile_again {settings : Settings} (hcache : settings.useCache = true) {s x : Text}
    {m m' : Memory} (hm : m.cache.Sound) (h : (compile settings s).outcome m = .ok x)
    (hkeeps : ((compile settings s).after m).cache.Keeps m'.cache) :
    (compile settings s).outcome m' = .ok x := by
  rw [compile, hcache] at h hkeeps ⊢
  have hknown := hkeeps s x (get?_after_compileAt hm h)
  cases hn : settings.levels with
  | zero =>
    rw [hn] at h
    cases h
  | succ n => exact (run_compileAt_of_get? hknown).1

/-- A selector compiled at some level, and compiled again at any levels with one left. -/
def again (n d : Nat) (s : Text) : Option (Nat × Nat) → Compilation Text
  | none => compileAt true n d s
  | some (k, e) => compileAt true (k + 1) e s

/-- At any level, what is compiled is compiled again from what has been left behind. -/
theorem replays_again (n d : Nat) (s : Text) : Replays Text (again n d s) := by
  induction n generalizing d s with
  | zero =>
    intro m hm hc
    exact ⟨⟨.refl _, hm, hc⟩, fun _ h => nomatch h⟩
  | succ n ih =>
    intro m hm hc
    -- That nothing is lost is known of every compilation; that what is left is complete is shown
    -- here.
    have hgrows : m.cache.Grows (s.length + 1) ((compileAt true (n + 1) d s).after m).cache :=
      (compileAt_follows true (n + 1) d s).grows m hm
    refine ⟨⟨hgrows.keeps, hgrows.sound, ?_⟩, ?_⟩
    · cases hg : m.cache.get? s with
      | some x =>
        rw [again, (run_compileAt_of_get? hg).2]
        exact hc
      | none =>
        have hparts : Replays Text fun i => compileUncached (fun t => again n (d + 1) t i) s := by
          apply Replays.kept.compileUncached
          intro t _
          exact ih (d + 1) t
        obtain ⟨⟨-, -, hcomplete⟩, hagain⟩ := hparts (missing s m) hm hc
        rw [again, (run_compileAt_of_none hg).2]
        cases hu : (compileUncached (compileAt true n (d + 1)) s).outcome (missing s m) with
        | error e => exact hcomplete
        | ok x =>
          -- The entry of the selector itself is the last one that is made.
          apply hcomplete.insert
          intro k e m' hm'
          exact hagain x hu (k, e) m' hm'
    · -- Once it has been compiled the selector is known, so that it is only looked for.
      rintro x hx ⟨k, e⟩ m' hm'
      obtain ⟨ho', ha'⟩ := run_compileAt_of_get? (n := k) (d := e)
        (hm' s x (get?_after_compileAt hm hx))
      exact ⟨ho', congrArg Memory.cache ha'⟩

/-- Without a cache nothing is entered. -/
theorem cache_after_compileAt_false (n d : Nat) (s : Text) (m : Memory) :
    ((compileAt false n d s).after m).cache = m.cache := by
  have hkept : Kept fun α (a : Unit → Compilation α) => ∀ m, ((a ()).after m).cache = m.cache := by
    refine ⟨fun _ _ => rfl, fun _ _ _ => rfl, ?_⟩
    intro α β a k ha hk m
    cases ho : (a ()).outcome m with
    | error e => rw [after_bind_of_error ho, ha]
    | ok v => rw [after_bind_of_ok ho, hk, ha]
  induction n generalizing d s m with
  | zero => rfl
  | succ n ih =>
    rw [(run_compileAt_false n d s m).2]
    exact @Kept.compileUncached Unit _ (fun _ => compileAt false n (d + 1)) hkept s
      (fun t _ => ih (d + 1) t) m

/-- Whatever a selector comes to, a complete cache is left complete. -/
theorem complete_compile (settings : Settings) (s : Text) {m : Memory} (hm : m.cache.Sound)
    (hc : m.cache.Complete) : ((compile settings s).after m).cache.Complete := by
  rw [compile]
  cases settings.useCache with
  | false =>
    rw [cache_after_compileAt_false]
    exact hc
  | true => exact (replays_again settings.levels 0 s m hm hc).1.2.2

/-- A selector that is compiled at some level is compiled from its parts one level deeper: if it is
not known, this is what is done; if it is, its parts are known, too. They are found if there is
a level left for looking. -/
theorem outcome_compileUncached {useCache : Bool} {n d : Nat} {s x : Text} {m m' : Memory}
    (hc : m.cache.Complete) (hm' : m'.cache = m.cache)
    (hlevels : 1 ≤ n ∨ m.cache.get? s = none)
    (h : (compileAt useCache (n + 1) d s).outcome m = .ok x) :
    (compileUncached (compileAt useCache n (d + 1)) s).outcome m' = .ok x := by
  cases useCache with
  | false =>
    rw [(run_compileAt_false n d s m).1] at h
    rw [(eventless_compileUncached false n (d + 1) s m' m hm').1, h]
  | true =>
    cases hg : m.cache.get? s with
    | none =>
      rw [(run_compileAt_of_none hg).1] at h
      rw [(eventless_compileUncached true n (d + 1) s m' (missing s m) hm').1, h]
    | some y =>
      -- The selector is known, so that its parts are looked up, for which there is a level.
      obtain ⟨k, rfl⟩ : ∃ k, n = k + 1 :=
        Nat.exists_eq_add_of_le' (hlevels.resolve_right (by simp [hg]))
      rw [(run_compileAt_of_get? hg).1] at h
      cases h
      exact (hc s x hg k (d + 1) m' (hm' ▸ .refl _)).1

end Selector

end TreeQuery
