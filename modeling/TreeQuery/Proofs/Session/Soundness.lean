import TreeQuery.Proofs.Compilation.Levels
import TreeQuery.Selector.Session

/-!
# Sound sessions

Compilers with settings of their own share caches. As long as nothing is entered by hand, every
entry of every cache is what its selector comes to without a cache and without a limit, and so is
every outcome, except where the limit of a compiler is reached. A cache helps with the limit: it
never stands in the way.

Main statement: `compilesSoundly_final`.
-/

namespace TreeQuery

open Pattern Compilation SelectorError

namespace Selector

/-- What a selector comes to without a cache and with as many levels as it can have. -/
def unlimited (s : Text) : Except SelectorError Text :=
  (compile { maxDepth := s.length, useCache := false } s).outcome {}

/-- There are more levels than the limit, as the selector itself is at level zero. -/
theorem lt_levels {settings : Settings} {s : Text} (h : (s.length : Int) ≤ settings.maxDepth) :
    s.length < settings.levels := by
  rw [Settings.levels]
  omega

/-- A limit that is not reached makes no difference, nor does the memory. -/
theorem outcome_eq_expression {settings : Settings} {s : Text} (hc : settings.useCache = false)
    (hd : (s.length : Int) ≤ settings.maxDepth) (m : Memory) :
    (compile settings s).outcome m = expression s := by
  rw [compile, hc]
  have h := (compileAt_follows false settings.levels 0 s).outcome_plain m
  rw [Except.map_id] at h
  exact h.resolve_right fun h => h.2 (.inl (lt_levels hd))

theorem unlimited_eq_expression (s : Text) : unlimited s = expression s :=
  outcome_eq_expression rfl (Int.le_refl _) {}

end Selector

namespace Session

/-! The invariant is on the caches alone: what the compilers are and how the caches are shared does
not matter, since an entry is right for every limit. -/

def Sound (s : Session) : Prop := ∀ c ∈ s.caches, c.Sound

/-- Each cache is sound, and one that is not there is empty. -/
theorem Sound.cache {s : Session} (h : s.Sound) (i : Nat) : (s.cache i).Sound := by
  rw [Session.cache, List.getD_eq_getElem?_getD]
  cases hi : s.caches[i]? with
  | none => exact Cache.sound_empty
  | some c => exact h c (List.mem_of_getElem? hi)

/-- A sound cache may take the place of another. -/
theorem Sound.setCache {s : Session} (h : s.Sound) (i : Nat) {c : Cache} (hc : c.Sound) :
    (s.setCache i c).Sound := by
  intro d hd
  rcases List.mem_or_eq_of_mem_set hd with hd | rfl
  · exact h d hd
  · exact hc

/-- Only the cache that is put in place can be another one. -/
theorem cache_setCache (s : Session) (i j : Nat) (c : Cache) :
    (s.setCache i c).cache j = s.cache j ∨ j = i ∧ (s.setCache i c).cache j = c := by
  rw [Session.cache, Session.cache, setCache, List.getD_eq_getElem?_getD,
    List.getD_eq_getElem?_getD, List.getElem?_set]
  split
  · next hij =>
    subst hij
    split
    · exact .inr ⟨rfl, rfl⟩
    · next hl =>
      rw [List.getElem?_eq_none (by omega)]
      exact .inl rfl
  · exact .inl rfl

/-! ## Compiling in a session

A compiler reads one cache and writes it back. What it does to the others is nothing, unless they
are the same. -/

section

variable {s : Session} (i : Nat) (t : Text)

def memory (s : Session) (i : Nat) : Memory := { cache := s.cache (s.compilers.getD i {}).cache }

theorem compile_fst : (s.compile i t).1 =
    (Selector.compile (s.compilers.getD i {}).settings t).outcome (s.memory i) := rfl

theorem compile_snd : (s.compile i t).2 = s.setCache (s.compilers.getD i {}).cache
    ((Selector.compile (s.compilers.getD i {}).settings t).after (s.memory i)).cache := rfl

/-- Compiling a selector lets every cache grow. -/
theorem Sound.grows {bound : Nat} (h : s.Sound)
    (hg : (s.memory i).cache.Grows bound
      ((Selector.compile (s.compilers.getD i {}).settings t).after (s.memory i)).cache) (k : Nat) :
    (s.cache k).Grows bound ((s.compile i t).2.cache k) := by
  rw [compile_snd]
  rcases cache_setCache s (s.compilers.getD i {}).cache k _ with he | ⟨rfl, he⟩
  · rw [he]
    exact .refl (h.cache k)
  · rw [he]
    exact hg

/-- Compiling keeps the caches sound. -/
theorem Sound.compile (h : s.Sound) : (s.compile i t).2.Sound :=
  h.setCache _ ((Selector.compileAt_follows _ _ _ _).grows (s.memory i) (h.cache _)).sound

end

/-- Every step but an entry by hand leaves the caches sound. -/
theorem Sound.step {s : Session} (h : s.Sound) {a : Step} (ha : ∀ i t x, a ≠ .enter i t x) :
    (s.step a).2.Sound := by
  cases a with
  | compile i t => exact h.compile i t
  | lookUp i t => exact h
  | enter i t x => exact absurd rfl (ha i t x)
  | clear i => exact h.setCache i Cache.sound_empty
  | ask i t => exact h
  | display i => exact h

/-- So do any steps without entries by hand, by induction on them. -/
theorem Sound.final {s : Session} (h : s.Sound) {steps : List Step}
    (hs : ∀ i t x, .enter i t x ∉ steps) : (s.final steps).Sound := by
  induction steps generalizing s with
  | nil => exact h
  | cons a r ih =>
    apply ih (h.step fun i t x he => hs i t x (he ▸ List.mem_cons_self))
    exact fun i t x hm => hs i t x (List.mem_cons_of_mem _ hm)

/-- A session in which caches never come between a selector and its outcome. -/
structure CompilesSoundly (s : Session) : Prop where
  /-- An entry is what its selector comes to. -/
  entries : ∀ c ∈ s.caches, ∀ e ∈ c.entries, Selector.unlimited e.1 = .ok e.2
  /-- An outcome is what the selector comes to, unless the limit is reached. -/
  outcome : ∀ i t, (s.compile i t).1 = Selector.unlimited t ∨ TooDeep (s.compile i t).1
  /-- Entries stay as they are. -/
  keeps : ∀ i t k u x, (s.cache k).get? u = some x → ((s.compile i t).2.cache k).get? u = some x
  /-- A selector is not entered if it has no outcome. -/
  fails : ∀ i t e, (s.compile i t).1 = .error e →
    ∀ k, ((s.compile i t).2.cache k).get? t = (s.cache k).get? t
  /-- The limit is not reached where it is not reached without a cache. -/
  tooDeep : ∀ i t m, TooDeep (s.compile i t).1 →
    TooDeep ((Selector.compile { (s.compilers.getD i {}).settings with useCache := false } t).outcome m)

theorem Sound.compilesSoundly {s : Session} (h : s.Sound) : s.CompilesSoundly where
  entries c hc e he := by
    rw [Selector.unlimited_eq_expression]
    exact h c hc e he
  outcome i t := by
    rw [Selector.unlimited_eq_expression, compile_fst]
    have := (Selector.compileAt_follows (s.compilers.getD i {}).settings.useCache
      (s.compilers.getD i {}).settings.levels 0 t).outcome (s.memory i) (h.cache _)
    rwa [Except.map_id] at this
  keeps i t k u x hx :=
    (h.grows i t ((Selector.compileAt_follows _ _ _ _).grows (s.memory i) (h.cache _)) k).keeps u x hx
  fails i t e he k :=
    (h.grows i t (Selector.grows_of_error (h.cache _) he) k).fresh t (Nat.le_refl _)
  tooDeep i t m hd :=
    (Selector.compileAt_follows _ _ _ _).tooDeep (s.memory i) (h.cache _) hd m

/-- Compilers that begin with empty caches compile soundly after any steps but entries by hand.
What a selector comes to does not depend on a limit that is not reached, nor on a memory. -/
theorem compilesSoundly_final (compilers : List Compiler) (caches : Nat) (steps : List Step)
    (hs : ∀ i t x, .enter i t x ∉ steps) :
    (final ⟨compilers, List.replicate caches .empty⟩ steps).CompilesSoundly ∧
      ∀ (settings : Settings) (t : Text) (m : Memory), settings.useCache = false →
        (t.length : Int) ≤ settings.maxDepth →
          (Selector.compile settings t).outcome m = Selector.unlimited t := by
  have h : Sound ⟨compilers, List.replicate caches .empty⟩ := by
    intro c hc
    rw [(List.mem_replicate.1 hc).2]
    exact Cache.sound_empty
  refine ⟨(h.final hs).compilesSoundly, fun settings t m hc hd => ?_⟩
  rw [Selector.unlimited_eq_expression]
  exact Selector.outcome_eq_expression hc hd m

/-- Two compilers, of which the first compiles no level below the selector, with one cache. -/
theorem compilesSoundly_shared :
    (∀ i t x, Step.enter i t x ∉ [.compile 0 "p:not(.a)".toList, .compile 1 "p:not(.a)".toList,
      .compile 0 "p:not(.a)".toList, .clear 0, .compile 0 ":not(".toList]) ∧
    (final ⟨[{ settings := { maxDepth := 0 } }, {}], List.replicate 1 .empty⟩
      [.compile 0 "p:not(.a)".toList, .compile 1 "p:not(.a)".toList,
        .compile 0 "p:not(.a)".toList, .clear 0, .compile 0 ":not(".toList]).CompilesSoundly :=
  ⟨by simp, (compilesSoundly_final _ _ _ (by simp)).1⟩

end Session

end TreeQuery
