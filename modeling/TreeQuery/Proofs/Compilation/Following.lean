import TreeQuery.Proofs.Pattern.Part

/-!
# Compilations that follow a meaning

A compilation with a cache and the same compilation without one are held against a meaning, the
outcome that neither a cache nor a limit has a part in. Both come to the meaning, unless the limit
stops them, and the limit stops the first only if it stops the second. The cache stays sound and
keeps what it has; what is entered are short selectors only, so that a selector is not entered by
the compilation of its parts.

Main statements: `Follows.bind` and `Follows.mapM`, what follows a meaning part by part follows the
meaning of the whole.
-/

namespace TreeQuery

/-- The expression of a selector: that of its pattern. -/
def Selector.expression (selector : Text) : Except SelectorError Text :=
  (Selector.pattern selector).map Pattern.xpath

/-! ## Sound caches

The meaning of a selector is the expression of its pattern, which is defined without cache, limit or
state. A cache is sound if all its entries are meanings. A compilation may only add entries to it,
and of these it matters that they are for shorter selectors than the one that is being compiled:
otherwise a selector could be entered by its own parts, and the entry that is made at the end would
be lost. -/

namespace Cache

/-- Every entry is the expression of its selector. -/
def Sound (c : Cache) : Prop := ∀ e ∈ c.entries, Selector.expression e.1 = .ok e.2

theorem sound_empty : empty.Sound := fun _ h => by cases h

/-- What is looked up in a sound cache is the meaning. -/
theorem Sound.expression_eq {c : Cache} (h : c.Sound) {s x : Text} (hx : c.get? s = some x) :
    Selector.expression s = .ok x := by
  unfold get? at hx
  obtain ⟨entries⟩ := c
  simp only at hx
  induction entries with
  | nil => cases hx
  | cons e r ih =>
    rw [List.lookup_cons] at hx
    split at hx
    · next he =>
      cases hx
      have := h e List.mem_cons_self
      rwa [← eq_of_beq he] at this
    · exact ih (fun e he => h e (List.mem_cons_of_mem _ he)) hx

/-- A meaning may be entered. -/
theorem Sound.insert {c : Cache} (h : c.Sound) {s x : Text} (hx : Selector.expression s = .ok x) :
    (c.insert s x).Sound := by
  unfold Cache.insert
  split
  · exact h
  · intro e he
    rcases List.mem_cons.1 he with rfl | he
    · exact hx
    · exact h e he

/-- A cache with entries for some shorter selectors more. -/
structure Grows (bound : Nat) (before after : Cache) : Prop where
  sound : after.Sound
  keeps : ∀ s x, before.get? s = some x → after.get? s = some x
  fresh : ∀ s : Text, bound ≤ s.length → after.get? s = before.get? s

theorem Grows.refl {bound : Nat} {c : Cache} (h : c.Sound) : Grows bound c c :=
  ⟨h, fun _ _ h => h, fun _ _ => rfl⟩

/-- What grows twice within a bound grows. -/
theorem Grows.trans {bound : Nat} {a b c : Cache} (h : Grows bound a b) (h' : Grows bound b c) :
    Grows bound a c :=
  ⟨h'.sound, fun s x hx => h'.keeps s x (h.keeps s x hx),
    fun s hs => (h'.fresh s hs).trans (h.fresh s hs)⟩

theorem Grows.mono {bound bound' : Nat} {a b : Cache} (h : Grows bound a b) (hb : bound ≤ bound') :
    Grows bound' a b :=
  ⟨h.sound, h.keeps, fun s hs => h.fresh s (Nat.le_trans hb hs)⟩

theorem Grows.insert {c : Cache} (h : c.Sound) {s x : Text} (hx : Selector.expression s = .ok x) :
    Grows (s.length + 1) c (c.insert s x) where
  sound := h.insert hx
  keeps t y hy := by
    by_cases ht : t = s
    · subst ht
      rwa [get?_insert_of_get? hy]
    · rwa [get?_insert_of_ne ht]
  fresh t ht := get?_insert_of_ne (by rintro rfl; omega) x

end Cache

/-! ## Outcomes and memories

A compilation is a function of the memory with two results. They are looked at one by one, so that a
fact about the outcome need not speak of the memory; the price is that going on with another
compilation has four lemmas, for two results and for a part that is at fault or is not. -/

/-- A part of a computation comes first, and the rest goes on with the state that it leaves. -/
theorem ExceptT.run_run_bind {ε σ α β : Type} (a : ExceptT ε (StateM σ) α)
    (f : α → ExceptT ε (StateM σ) β) (s : σ) :
    (a >>= f).run.run s =
      match (a.run.run s).1 with
      | .ok v => (f v).run.run (a.run.run s).2
      | .error e => (.error e, (a.run.run s).2) := by
  have h : (a >>= f).run.run s =
      (ExceptT.bindCont (m := StateM σ) f (a.run.run s).1).run (a.run.run s).2 := rfl
  rw [h]
  cases (a.run.run s).1 <;> rfl

namespace Compilation

variable {α β : Type}

def outcome (a : Compilation α) (m : Memory) : Except SelectorError α := (a.run.run m).1

def after (a : Compilation α) (m : Memory) : Memory := (a.run.run m).2

theorem run_bind (a : Compilation α) (f : α → Compilation β) (m : Memory) :
    (a >>= f).run.run m =
      match a.outcome m with
      | .ok v => (f v).run.run (a.after m)
      | .error e => (.error e, a.after m) := by
  rw [ExceptT.run_run_bind]
  unfold outcome after
  cases (a.run.run m).1 <;> rfl

/-- The rest goes on with the memory that the part leaves. -/
theorem outcome_bind_of_ok {a : Compilation α} {f : α → Compilation β} {m : Memory} {v : α}
    (h : a.outcome m = .ok v) : (a >>= f).outcome m = (f v).outcome (a.after m) := by
  rw [outcome, run_bind, h]
  rfl

theorem outcome_bind_of_error {a : Compilation α} {f : α → Compilation β} {m : Memory}
    {e : SelectorError} (h : a.outcome m = .error e) : (a >>= f).outcome m = .error e := by
  rw [outcome, run_bind, h]

theorem after_bind_of_ok {a : Compilation α} {f : α → Compilation β} {m : Memory} {v : α}
    (h : a.outcome m = .ok v) : (a >>= f).after m = (f v).after (a.after m) := by
  rw [after, run_bind, h]
  rfl

theorem after_bind_of_error {a : Compilation α} {f : α → Compilation β} {m : Memory}
    {e : SelectorError} (h : a.outcome m = .error e) : (a >>= f).after m = a.after m := by
  rw [after, run_bind, h]

end Compilation

/-- Whether the limit on nesting stopped a computation. -/
def SelectorError.TooDeep {α : Type} (r : Except SelectorError α) : Prop :=
  ∃ s d, r = .error (.nestingTooDeep s d)

open Compilation SelectorError

/-! ## Following

The cached compilation and the plain one are followed together, because where the limit stops them
is not the same place: with a cache fewer levels are compiled. What is known of the limit is
one-sided therefore. Whoever is stopped with a cache is stopped without one, and who is stopped
without one has a selector that does not fit. The view is there since tokens are put together
differently from texts: two lists of tokens are alike if they make up the same text. -/

/-- A compilation with a cache and one without come to what a meaning says of a view of their
results, unless the limit stops them. The limit stops the first only if it stops the second, and the
second only if that does not fit. -/
structure Follows {α β : Type} (view : α → β) (bound : Nat) (fits : Prop)
    (cached plain : Compilation α) (meaning : Except SelectorError β) : Prop where
  grows : ∀ m : Memory, m.cache.Sound → m.cache.Grows bound (cached.after m).cache
  outcome : ∀ m : Memory, m.cache.Sound →
    (cached.outcome m).map view = meaning ∨ TooDeep (cached.outcome m)
  tooDeep : ∀ m : Memory, m.cache.Sound → TooDeep (cached.outcome m) →
    ∀ m', TooDeep (plain.outcome m')
  outcome_plain : ∀ m, (plain.outcome m).map view = meaning ∨ TooDeep (plain.outcome m) ∧ ¬ fits

namespace Follows

variable {α β γ δ : Type} {view : α → β} {view' : γ → δ} {bound : Nat} {fits : Prop}
  {a a' : Compilation α} {p : Except SelectorError β}

/-- Results that look like the meaning follow it. -/
theorem pure {v v' : α} {w : β} (h : view v = w) (h' : view v' = w) :
    Follows view bound fits (Pure.pure v) (Pure.pure v') (.ok w) where
  grows _ hm := .refl hm
  outcome _ _ := .inl (congrArg Except.ok h)
  tooDeep _ _ := fun ⟨_, _, h⟩ => nomatch h
  outcome_plain _ := .inl (congrArg Except.ok h')

/-- A fault follows itself. -/
theorem fail (e : SelectorError) :
    Follows view bound fits (Compilation.fail e) (Compilation.fail e) (.error e) where
  grows _ hm := .refl hm
  outcome _ _ := .inl rfl
  tooDeep _ _ h _ := h
  outcome_plain _ := .inl rfl

theorem mono {bound' : Nat} {fits' : Prop} (h : Follows view bound fits a a' p)
    (hb : bound ≤ bound') (hf : fits' → fits) : Follows view bound' fits' a a' p where
  grows m hm := (h.grows m hm).mono hb
  outcome := h.outcome
  tooDeep := h.tooDeep
  outcome_plain m := (h.outcome_plain m).imp_right fun h => ⟨h.1, fun h' => h.2 (hf h')⟩

/-- A limit that stops a part stops the whole. -/
theorem tooDeep_bind {a : Compilation α} {k : α → Compilation γ} {m : Memory}
    (h : TooDeep (a.outcome m)) : TooDeep ((a >>= k).outcome m) := by
  obtain ⟨s, d, h⟩ := h
  exact ⟨s, d, outcome_bind_of_error h⟩

/-- What follows a meaning part by part follows the meaning of the whole. The rest is asked about
for two results of the part, one with the cache and one without, that look the same. -/
theorem bind {k k' : α → Compilation γ} {q : β → Except SelectorError δ}
    (h : Follows view bound fits a a' p)
    (hk : ∀ w, p = .ok w → ∀ v v', view v = w → view v' = w →
      Follows view' bound fits (k v) (k' v') (q w)) :
    Follows view' bound fits (a >>= k) (a' >>= k') (p >>= q) := by
  refine ⟨fun m hm => ?_, fun m hm => ?_, fun m hm hd m' => ?_, fun m => ?_⟩
  · -- The four parts of following: the cache, the outcome with it, the limit, the outcome without
    -- it.
    have hg := h.grows m hm
    cases ho : a.outcome m with
    | error e => rwa [after_bind_of_error ho]
    | ok v =>
      rw [after_bind_of_ok ho]
      rcases h.outcome m hm with hp | ⟨s, d, hd⟩
      · rw [ho] at hp
        exact hg.trans ((hk _ hp.symm v v rfl rfl).grows _ hg.sound)
      · rw [ho] at hd; cases hd
  · rcases h.outcome m hm with hp | hd
    · cases ho : a.outcome m with
      | error e =>
        rw [outcome_bind_of_error ho, ← hp, ho]
        exact .inl rfl
      | ok v =>
        rw [ho] at hp
        subst hp
        rw [outcome_bind_of_ok ho]
        exact (hk _ rfl v v rfl rfl).outcome _ (h.grows m hm).sound
    · exact .inr (tooDeep_bind hd)
  · -- Without the cache the part may have been stopped too; if it was not, both parts came to
    -- results that look the same, and the limit stopped the rest.
    rcases h.outcome_plain m' with hp' | ⟨hd', -⟩
    · cases ho : a.outcome m with
      | error e =>
        rw [outcome_bind_of_error ho] at hd
        obtain ⟨s, d, hd⟩ := hd
        cases hd
        exact tooDeep_bind (h.tooDeep m hm ⟨s, d, ho⟩ m')
      | ok v =>
        rw [outcome_bind_of_ok ho] at hd
        have hp := (h.outcome m hm).resolve_right (by rintro ⟨s, d, hd⟩; rw [ho] at hd; cases hd)
        rw [ho] at hp
        subst hp
        cases ho' : a'.outcome m' with
        | error e => rw [ho'] at hp'; cases hp'
        | ok v' =>
          rw [ho'] at hp'
          rw [outcome_bind_of_ok ho']
          have hv := hk _ rfl v v' rfl (Except.ok.inj hp')
          exact hv.tooDeep _ (h.grows m hm).sound hd _
    · exact tooDeep_bind hd'
  · rcases h.outcome_plain m with hp | ⟨hd, hf⟩
    · cases ho : a'.outcome m with
      | error e =>
        rw [outcome_bind_of_error ho, ← hp, ho]
        exact .inl rfl
      | ok v =>
        rw [ho] at hp
        subst hp
        rw [outcome_bind_of_ok ho]
        exact (hk _ rfl v v rfl rfl).outcome_plain _
    · exact .inr ⟨tooDeep_bind hd, hf⟩

/-- Nothing comes behind a fault. -/
theorem fail_bind (e : SelectorError) (k k' : γ → Compilation α) :
    Follows view bound fits (Compilation.fail e >>= k) (Compilation.fail e >>= k') (.error e) :=
  fail e

/-- What becomes of the view of a result follows what becomes of the meaning. -/
theorem map (h : Follows view bound fits a a' p) (k : β → γ) :
    Follows id bound fits (a >>= fun v => Pure.pure (k (view v)))
      (a' >>= fun v => Pure.pure (k (view v))) (p.map k) := by
  have : Follows id bound fits (a >>= fun v => Pure.pure (k (view v)))
      (a' >>= fun v => Pure.pure (k (view v))) (p >>= fun w => Except.ok (k w)) :=
    h.bind fun w _ v v' hv hv' => pure (congrArg k hv) (congrArg k hv')
  cases p with
  | error e => exact this
  | ok w => exact this

/-- What follows a meaning one by one follows the list of the meanings. -/
theorem mapM {ι : Type} {l : List ι} {f f' : ι → Compilation α} {g : ι → Except SelectorError α}
    (h : ∀ i ∈ l, Follows id bound fits (f i) (f' i) (g i)) :
    Follows id bound fits (l.mapM f) (l.mapM f') (l.mapM g) := by
  induction l with
  | nil => exact pure rfl rfl
  | cons i r ih =>
    rw [List.mapM_cons, List.mapM_cons, List.mapM_cons]
    apply (h i List.mem_cons_self).bind
    intro w hw v v' hv hv'
    apply (ih fun j hj => h j (List.mem_cons_of_mem _ hj)).bind
    intro ws hws vs vs' hvs hvs'
    exact pure (congrArg₂ List.cons hv hvs) (congrArg₂ List.cons hv' hvs')

end Follows

end TreeQuery
