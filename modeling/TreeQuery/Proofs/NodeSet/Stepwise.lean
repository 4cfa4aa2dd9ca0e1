import TreeQuery.Proofs.Matching.Finding

/-!
# Queries step by step

A query compiles its selectors one after another, each with what the ones before have left in the
cache. A sound cache stays sound, so that the later steps of a query may rely on it as the first
does. A query that succeeds has succeeded in each of its steps, and what it comes to is told from
what the steps have come to.

Main statements: `NodeSet.keepsSound_find` and `NodeSet.eq_filter_of_havingAmong`.
-/

namespace TreeQuery

namespace Query

variable {α β : Type}

/-! The result of a query and the memory behind it are told apart here: a step needs the memory that
the step before has left, but what it comes to is the same for all sound memories. -/

/-- The memory behind two queries. -/
theorem after_bind (a : Query α) (f : α → Query β) (m : Memory) : (a >>= f).after m =
    match a.outcome m with
    | .ok v => (f v).after (a.after m)
    | .error _ => a.after m := by
  rw [after, ExceptT.run_run_bind]
  unfold outcome
  cases (a.run.run m).1 <;> rfl

/-- What is made of the result of a query. -/
theorem outcome_map (f : α → β) (a : Query α) (m : Memory) :
    (f <$> a).outcome m = (a.outcome m).map f := by
  rw [map_eq_pure_bind, outcome_bind]
  cases a.outcome m <;> rfl

/-- A query of two steps that succeeds does so in the first and then in the second. -/
theorem exists_of_outcome_bind {a : Query α} {f : α → Query β} {m : Memory} {w : β}
    (h : (a >>= f).outcome m = .ok w) :
    ∃ v, a.outcome m = .ok v ∧ (f v).outcome (a.after m) = .ok w := by
  rw [outcome_bind] at h
  cases ha : a.outcome m with
  | ok v =>
    rw [ha] at h
    exact ⟨v, rfl, h⟩
  | error e =>
    rw [ha] at h
    cases h

/-- A query that compiles comes to what the compiler does. -/
theorem eq_ok_of_outcome_compile {s : Text} {m : Memory} {x : Text}
    (h : (Query.compile s).outcome m = .ok x) : (Selector.compile {} s).outcome m = .ok x := by
  rw [outcome_compile] at h
  cases hx : (Selector.compile {} s).outcome m with
  | ok y =>
    rw [hx] at h
    cases h
    rfl
  | error e =>
    rw [hx] at h
    cases h

/-! ## What is remembered

The one thing that a query may do to the cache is to enter selectors with their expressions, and the
compiler enters them rightly. The other steps record events or do nothing. -/

/-- A query that leaves a sound cache sound. -/
def KeepsSound (a : Query α) : Prop := ∀ m : Memory, m.cache.Sound → (a.after m).cache.Sound

theorem keepsSound_pure (v : α) : KeepsSound (pure v) := fun _ hm => hm

/-- Two steps that keep a cache sound do so together. -/
theorem KeepsSound.bind {a : Query α} {f : α → Query β} (ha : a.KeepsSound)
    (hf : ∀ v, (f v).KeepsSound) : (a >>= f).KeepsSound := by
  intro m hm
  rw [after_bind]
  cases a.outcome m with
  | ok v => exact hf v _ (ha m hm)
  | error e => exact ha m hm

/-- The compiler enters into a sound cache what belongs there. -/
theorem keepsSound_compile (s : Text) : (Query.compile s).KeepsSound := by
  intro m hm
  have hafter : (Query.compile s).after m = (Selector.compile {} s).after m := rfl
  rw [hafter]
  exact ((Selector.compileAt_follows _ _ _ _).grows m hm).sound

end Query

namespace NodeSet

open Query

section

variable (q : NodeSet)

/-- That an expression is evaluated is an event, which leaves the cache as it is. -/
theorem cache_after_select (x : Text) (context : Option Path) (m : Memory) :
    ((q.select x context).after m).cache = m.cache := by
  rw [select]
  split
  · rfl
  · rw [after_bind]
    show ((Query.ofExcept _).after _).cache = m.cache
    cases Document.elementsFor _ context x <;> rfl

theorem keepsSound_select (x : Text) (context : Option Path) :
    (q.select x context).KeepsSound := by
  intro m hm
  rw [cache_after_select]
  exact hm

theorem keepsSound_selectBelow (x : Text) : ∀ ps : List Path, (q.selectBelow x ps).KeepsSound
  | [] => keepsSound_pure _
  | _ :: r => (q.keepsSound_select x _).bind fun _ =>
      (keepsSound_selectBelow x r).bind fun _ => keepsSound_pure _

/-- What has been found for one selector does not mislead the search for the next. -/
theorem keepsSound_find (s : Text) : (q.find s).KeepsSound := by
  rw [find]
  refine (keepsSound_compile s).bind fun x => ?_
  split
  · exact (q.keepsSound_select x none).bind fun _ => keepsSound_pure _
  · exact (q.keepsSound_selectBelow _ _).bind fun _ => keepsSound_pure _

end

/-! ## The steps

A query that succeeds is taken apart: which selector was compiled, with what result, and what was
selected with it. The converse, that a query succeeds with given results of its steps, is the second
half. A set without nodes is set apart, since it returns before it compiles anything, so that
nothing can be said about the selector. -/

variable {q r : NodeSet} {d : Document} {s : Text} {m : Memory} {found : List Path}

/-- A search that succeeds has compiled its selector. -/
theorem exists_compile_of_find (h : (q.find s).outcome m = .ok r) :
    ∃ x, (Selector.compile {} s).outcome m = .ok x := by
  rw [find] at h
  obtain ⟨x, hx, -⟩ := exists_of_outcome_bind h
  exact ⟨x, eq_ok_of_outcome_compile hx⟩

/-- What matches a selector is what its expression selects in the whole document. -/
theorem exists_elementsFor_of_matching (hq : q.document = some d)
    (h : (q.matching s).outcome m = .ok found) :
    ∃ x, (Selector.compile {} s).outcome m = .ok x ∧ d.elementsFor none x = .ok found := by
  rw [matching] at h
  obtain ⟨x, hx, h⟩ := exists_of_outcome_bind h
  rw [outcome_select hq] at h
  exact ⟨x, eq_ok_of_outcome_compile hx, h⟩

/-- What is kept by a filter are the nodes that match. -/
theorem exists_matching_of_filter (hne : q.nodes ≠ []) (h : (q.filter s).outcome m = .ok r) :
    ∃ found, (q.matching s).outcome m = .ok found ∧ r.nodes = q.nodes.filter (found.contains ·) := by
  rw [filter, if_neg (by simpa using hne)] at h
  obtain ⟨found, hfound, h⟩ := exists_of_outcome_bind h
  cases h
  exact ⟨found, hfound, rfl⟩

/-- What is kept by an exclusion are the nodes that do not. -/
theorem exists_matching_of_exclude (hne : q.nodes ≠ []) (h : (q.exclude s).outcome m = .ok r) :
    ∃ found, (q.matching s).outcome m = .ok found ∧
      r.nodes = q.nodes.filter (!found.contains ·) := by
  rw [exclude, if_neg (by simpa using hne)] at h
  obtain ⟨found, hfound, h⟩ := exists_of_outcome_bind h
  cases h
  exact ⟨found, hfound, rfl⟩

section

variable {x : Text}

/-- What matches a selector that is compiled is selected in the document. -/
theorem outcome_matching (hq : q.document = some d)
    (hx : (Selector.compile {} s).outcome m = .ok x) :
    (q.matching s).outcome m = d.elementsFor none x := by
  rw [matching, outcome_bind, outcome_compile, hx]
  exact outcome_select hq ..

theorem outcome_filter (hq : q.document = some d) (hne : q.nodes ≠ [])
    (hx : (Selector.compile {} s).outcome m = .ok x) (h : d.elementsFor none x = .ok found) :
    (q.filter s).outcome m = .ok (q.holding (q.nodes.filter (found.contains ·))) := by
  rw [filter, if_neg (by simpa using hne), outcome_bind, outcome_matching hq hx, h]
  rfl

theorem outcome_exclude (hq : q.document = some d) (hne : q.nodes ≠ [])
    (hx : (Selector.compile {} s).outcome m = .ok x) (h : d.elementsFor none x = .ok found) :
    (q.exclude s).outcome m = .ok (q.holding (q.nodes.filter (!found.contains ·))) := by
  rw [exclude, if_neg (by simpa using hne), outcome_bind, outcome_matching hq hx, h]
  rfl

end

/-- A set without nodes does not look at the selector. -/
theorem nodes_filter_of_nil (hq : q.nodes = []) (h : (q.filter s).outcome m = .ok r) :
    r.nodes = [] := by
  rw [filter, if_pos (by rw [hq]; rfl)] at h
  cases h
  rfl

theorem nodes_exclude_of_nil (hq : q.nodes = []) (h : (q.exclude s).outcome m = .ok r) :
    r.nodes = [] := by
  rw [exclude, if_pos (by rw [hq]; rfl)] at h
  cases h
  rfl

/-- The nodes below which something is found are a part of the nodes, told from each one alone. -/
theorem eq_filter_of_havingAmong {T : Path → Bool} {ps kept : List Path}
    (hT : ∀ p ∈ ps, ∀ m : Memory, m.cache.Sound → ∀ r, ((q.holding [p]).find s).outcome m = .ok r →
      decide (0 < r.length) = T p)
    (hm : m.cache.Sound) (h : (q.havingAmong s ps).outcome m = .ok kept) : kept = ps.filter T := by
  induction ps generalizing m kept with
  | nil =>
    cases h
    rfl
  | cons p ps ih =>
    rw [List.forall_mem_cons] at hT
    rw [havingAmong] at h
    obtain ⟨r, hr, h⟩ := exists_of_outcome_bind h
    obtain ⟨rest, hrest, h⟩ := exists_of_outcome_bind h
    cases h
    obtain rfl := ih hT.2 ((q.holding [p]).keepsSound_find s m hm) hrest
    rw [List.filter_cons, ← hT.1 m hm r hr]
    simp only [decide_eq_true_eq]

end NodeSet

end TreeQuery
