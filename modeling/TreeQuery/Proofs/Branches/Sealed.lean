import TreeQuery.Proofs.Branches.Scan

/-!
# Sealed texts

The scan that splits an expression at its bars knows a quote that is open and a depth of brackets. A
text is sealed if the scan of it leaves both as they were, never closes a bracket that it has not
opened and meets no bar outside of quotes. Sealed texts can be put together, and what is put
together with bars between them is split there again.

Main statements: `branches_intercalate` and `run_intercalate`.
-/

namespace TreeQuery.XPath

/-! ## Sealed texts

A depth that may become negative is not what makes a text harmless in every place: a text that
closes a bracket too much would close one of what stands around it. Sealed texts are therefore
defined by a scan of their own, which counts with natural numbers and fails at such a bracket. One
step of it and one step of the scan that splits are compared once, for all characters; everything
else follows from this by induction. -/

/-- Whether a text closes what is open and nothing else: the quote, and so many brackets. No bar may
stand outside of quotes. -/
def closesFrom (quote : Option Char) (depth : Nat) : Text → Bool
  | [] => quote.isNone && depth = 0
  | c :: r =>
    match quote with
    | some q => closesFrom (if c = q then none else some q) depth r
    | none =>
      if c = '\'' || c = '"' then closesFrom (some c) depth r
      else if c = '[' || c = '(' then closesFrom none (depth + 1) r
      else if c = ']' || c = ')' then depth != 0 && closesFrom none (depth - 1) r
      else c != '|' && closesFrom none depth r

/-- A text whose quotes and brackets are closed, without bars outside of quotes. -/
def IsSealed (t : Text) : Prop := closesFrom none 0 t = true

def isMark (c : Char) : Bool := "'\"[]()|".toList.contains c

section

variable {quote : Option Char} {depth : Nat} {c q : Char} {a b t : Text}

theorem closesFrom_none_cons (depth : Nat) (c : Char) (r : Text) :
    closesFrom none depth (c :: r) =
      if c = '\'' || c = '"' then closesFrom (some c) depth r
      else if c = '[' || c = '(' then closesFrom none (depth + 1) r
      else if c = ']' || c = ')' then depth != 0 && closesFrom none (depth - 1) r
      else c != '|' && closesFrom none depth r := rfl

/-- A character without meaning is passed over. -/
theorem closesFrom_of_not_isMark (h : isMark c = false) (depth : Nat) (r : Text) :
    closesFrom none depth (c :: r) = closesFrom none depth r := by
  simp only [isMark, List.contains_eq_mem, decide_eq_false_iff_not] at h
  have hall : c ≠ '\'' ∧ c ≠ '"' ∧ c ≠ '[' ∧ c ≠ ']' ∧ c ≠ '(' ∧ c ≠ ')' ∧ c ≠ '|' := by
    refine ⟨?_, ?_, ?_, ?_, ?_, ?_, ?_⟩ <;> · rintro rfl; exact h (by decide)
  rw [closesFrom_none_cons]
  simp [hall]

/-- What a character leaves to close, whatever else is open further out. -/
theorem exists_step (h : closesFrom quote depth (c :: t) = true) :
    ∃ quote' depth', closesFrom quote' depth' t = true ∧
      (∀ k b, closesFrom quote (depth + k) (c :: b) = closesFrom quote' (depth' + k) b) ∧
      ∀ k : Int, Scan.step ⟨quote, depth + k⟩ c = ⟨quote', depth' + k⟩ ∧
        Scan.separates ⟨quote, depth + k⟩ c = false := by
  cases quote with
  | some q =>
    refine ⟨if c = q then none else some q, depth, h, fun k b => rfl, fun k => ⟨?_, rfl⟩⟩
    by_cases hq : c = q <;> simp [Scan.step, hq]
  | none =>
    rw [closesFrom_none_cons] at h
    -- The kinds of characters in the order in which both scans ask for them.
    by_cases h1 : (decide (c = '\'') || decide (c = '"')) = true
    · have hbar : c ≠ '|' := by rintro rfl; exact absurd h1 (by decide)
      rw [if_pos h1] at h
      refine ⟨some c, depth, h, fun k b => ?_, fun k => ⟨?_, by simp [Scan.separates, hbar]⟩⟩
      · rw [closesFrom_none_cons, if_pos h1]
      · simp only [Scan.step, if_pos h1]
    · by_cases h2 : (decide (c = '[') || decide (c = '(')) = true
      · have hbar : c ≠ '|' := by rintro rfl; exact absurd h2 (by decide)
        rw [if_neg h1, if_pos h2] at h
        refine ⟨none, depth + 1, h, fun k b => ?_, fun k => ⟨?_, by simp [Scan.separates, hbar]⟩⟩
        · rw [closesFrom_none_cons, if_neg h1, if_pos h2, Nat.add_right_comm]
        · simp only [Scan.step, if_neg h1, if_pos h2, Scan.mk.injEq, true_and]
          omega
      · by_cases h3 : (decide (c = ']') || decide (c = ')')) = true
        · have hbar : c ≠ '|' := by rintro rfl; exact absurd h3 (by decide)
          rw [if_neg h1, if_neg h2, if_pos h3, Bool.and_eq_true, bne_iff_ne] at h
          obtain ⟨depth, rfl⟩ := Nat.exists_eq_succ_of_ne_zero h.1
          refine ⟨none, depth, h.2, fun k b => ?_, fun k => ⟨?_, by simp [Scan.separates, hbar]⟩⟩
          · rw [closesFrom_none_cons, if_neg h1, if_neg h2, if_pos h3, Nat.succ_add,
              Nat.succ_sub_one]
            simp
          · simp only [Scan.step, if_neg h1, if_neg h2, if_pos h3, Scan.mk.injEq, true_and]
            omega
        · rw [if_neg h1, if_neg h2, if_neg h3, Bool.and_eq_true, bne_iff_ne] at h
          refine ⟨none, depth, h.2, fun k b => ?_, fun k => ⟨?_, by simp [Scan.separates, h.1]⟩⟩
          · rw [closesFrom_none_cons, if_neg h1, if_neg h2, if_neg h3]
            simp [h.1]
          · simp only [Scan.step, if_neg h1, if_neg h2, if_neg h3]

theorem eq_of_closesFrom_nil (h : closesFrom quote depth [] = true) : quote = none ∧ depth = 0 := by
  simpa [closesFrom] using h

/-- Behind a text that closes what is open, the rest is left to close. -/
theorem closesFrom_append (h : closesFrom quote depth a = true) (k : Nat) (b : Text) :
    closesFrom quote (depth + k) (a ++ b) = closesFrom none k b := by
  induction a generalizing quote depth with
  | nil =>
    obtain ⟨rfl, rfl⟩ := eq_of_closesFrom_nil h
    rw [List.nil_append, Nat.zero_add]
  | cons c a ih =>
    obtain ⟨quote', depth', h', hstep, -⟩ := exists_step h
    rw [List.cons_append, hstep, ih h']

/-- Up to the next quote of its kind everything is passed over. -/
theorem closesFrom_quoted (h : q ∉ a) (depth : Nat) (b : Text) :
    closesFrom (some q) depth (a ++ q :: b) = closesFrom none depth b := by
  induction a with
  | nil =>
    rw [List.nil_append, closesFrom]
    simp
  | cons c a ih =>
    rw [List.mem_cons, not_or] at h
    rw [List.cons_append, closesFrom, if_neg (Ne.symm h.1)]
    exact ih h.2

namespace IsSealed

/-- A sealed text changes nothing. -/
theorem skip (h : IsSealed a) (k : Nat) (b : Text) :
    closesFrom none k (a ++ b) = closesFrom none k b := by
  have := closesFrom_append h k b
  rwa [Nat.zero_add] at this

theorem append (ha : IsSealed a) (hb : IsSealed b) : IsSealed (a ++ b) := by
  rw [IsSealed, ha.skip]
  exact hb

/-- A text of characters without meaning is sealed. -/
theorem of_plain (h : ∀ c ∈ t, isMark c = false) : IsSealed t := by
  induction t with
  | nil => rfl
  | cons c t ih =>
    rw [IsSealed, closesFrom_of_not_isMark (h c List.mem_cons_self)]
    exact ih fun d hd => h d (List.mem_cons_of_mem c hd)

/-- A character without meaning may be left out in front. -/
theorem tail (hc : isMark c = false) (h : IsSealed (c :: t)) : IsSealed t := by
  rwa [IsSealed, closesFrom_of_not_isMark hc] at h

theorem flatMap {α : Type} {l : List α} {f : α → Text} (h : ∀ x ∈ l, IsSealed (f x)) :
    IsSealed (l.flatMap f) := by
  induction l with
  | nil => rfl
  | cons x l ih =>
    rw [List.flatMap_cons]
    exact (h x List.mem_cons_self).append (ih fun y hy => h y (List.mem_cons_of_mem x hy))

/-- Sealed texts with a sealed text between them are sealed. -/
theorem intercalate (ha : IsSealed a) {ts : List Text} (h : ∀ t ∈ ts, IsSealed t) :
    IsSealed (List.intercalate a ts) := by
  induction ts with
  | nil => rfl
  | cons t ts ih =>
    have ht := h t List.mem_cons_self
    cases ts with
    | nil => simpa [List.intercalate] using ht
    | cons u ts =>
      have hrest := ih fun v hv => h v (List.mem_cons_of_mem t hv)
      rw [List.intercalate, List.intersperse_cons_cons, List.flatten_cons, List.flatten_cons]
      exact ht.append (ha.append hrest)

end IsSealed

/-- A text that takes the scan from one depth to another, outside of quotes. -/
def Takes (j : Nat) (t : Text) (k : Nat) : Prop :=
  ∀ r, closesFrom none j (t ++ r) = closesFrom none k r

theorem Takes.append {i j k : Nat} {a b : Text} (ha : Takes i a j) (hb : Takes j b k) :
    Takes i (a ++ b) k := by
  intro r
  rw [List.append_assoc, ha, hb]

theorem Takes.literal (j k : Nat) {t : Text}
    (h : ∀ r, closesFrom none j (t ++ r) = closesFrom none k r) :
    Takes j (String.ofList t).toList k :=
  Text.of_literal (P := fun t => Takes j t k) h

theorem IsSealed.takes {t : Text} (h : IsSealed t) (k : Nat) : Takes k t k := h.skip k

theorem Takes.isSealed {t : Text} (h : Takes 0 t 0) : IsSealed t := by
  have := h []
  rw [List.append_nil] at this
  exact this

/-! ## Depth

The scan of a sealed text comes back to where it began, and all the way it is not further out than
there. The statement for an arbitrary depth `k` around the text is the one that the induction needs;
for a whole expression it is used with zero. -/

/-- A beginning of two texts ends in the first or in the second. -/
theorem prefix_append_cases {a b front : Text} (h : front <+: a ++ b) :
    front <+: a ∨ ∃ r, front = a ++ r ∧ r <+: b := by
  rcases List.prefix_or_prefix_of_prefix h (List.prefix_append a b) with h' | ⟨r, rfl⟩
  · exact .inl h'
  · exact .inr ⟨r, rfl, (List.prefix_append_right_inj a).1 h⟩

/-- The scan of a text that closes what is open ends outside of it, and is nowhere further out. -/
theorem run_of_closesFrom (h : closesFrom quote depth t = true) (k : Int) :
    Scan.run ⟨quote, depth + k⟩ t = ⟨none, k⟩ ∧
      ∀ front, front <+: t → k ≤ (Scan.run ⟨quote, depth + k⟩ front).depth := by
  have hfirst : k ≤ (Scan.run ⟨quote, depth + k⟩ []).depth := by
    show k ≤ (depth : Int) + k
    omega
  induction t generalizing quote depth with
  | nil =>
    obtain ⟨rfl, rfl⟩ := eq_of_closesFrom_nil h
    refine ⟨by simp [Scan.run], fun front hfront => ?_⟩
    rw [List.prefix_nil.1 hfront]
    exact hfirst
  | cons c t ih =>
    obtain ⟨quote', depth', h', -, hscan⟩ := exists_step h
    have hrest := ih h' (by show k ≤ (depth' : Int) + k; omega)
    refine ⟨by rw [Scan.run_cons, (hscan k).1]; exact hrest.1, fun front hfront => ?_⟩
    cases front with
    | nil => exact hfirst
    | cons d front =>
      obtain ⟨rfl, hprefix⟩ := List.cons_prefix_cons.1 hfront
      rw [Scan.run_cons, (hscan k).1]
      exact hrest.2 front hprefix

/-- The scan of sealed texts with bars between them ends where it began, and is nowhere further
out. -/
theorem run_intercalate {ts : List Text} (h : ∀ t ∈ ts, IsSealed t) :
    Scan.run .start (List.intercalate ['|'] ts) = .start ∧
      ∀ front, front <+: List.intercalate ['|'] ts → 0 ≤ (Scan.run .start front).depth := by
  induction ts with
  | nil => exact ⟨rfl, fun front hfront => by rw [List.prefix_nil.1 hfront]; exact Int.le_refl 0⟩
  | cons t ts ih =>
    have ht : Scan.run .start t = .start ∧
        ∀ front, front <+: t → 0 ≤ (Scan.run .start front).depth :=
      run_of_closesFrom (h t List.mem_cons_self) 0
    cases ts with
    | nil => simpa [List.intercalate] using ht
    | cons u ts =>
      have hrest := ih fun v hv => h v (List.mem_cons_of_mem t hv)
      have hrun : ∀ r, Scan.run .start (t ++ r) = Scan.run .start r := fun r => by
        rw [Scan.run_append, ht.1]
      rw [intercalate_cons_cons]
      refine ⟨?_, fun front hfront => ?_⟩
      · rw [hrun]
        exact hrest.1
      · -- A beginning ends in the first text, or goes on behind it with the bar.
        rcases prefix_append_cases hfront with hfront | ⟨r, rfl, hr⟩
        · exact ht.2 front hfront
        · rw [hrun]
          cases r with
          | nil => exact Int.le_refl 0
          | cons c r =>
            obtain ⟨rfl, hprefix⟩ := List.cons_prefix_cons.1 hr
            exact hrest.2 r hprefix

/-! ## Splitting

As no bar of a sealed text separates, sealed texts with bars between them are a row, and rows are
the branches of what they make up. -/

/-- A text that closes what is open has no bar that separates, however far out it stands. -/
theorem passes_of_closesFrom (h : closesFrom quote depth t = true) (k : Int) :
    Scan.Passes ⟨quote, depth + k⟩ t := by
  induction t generalizing quote depth with
  | nil => exact Scan.passes_nil _
  | cons c t ih =>
    obtain ⟨quote', depth', h', -, hscan⟩ := exists_step h
    refine Scan.passes_cons.2 ⟨(hscan k).2, ?_⟩
    rw [(hscan k).1]
    exact ih h'

theorem IsSealed.passes (h : IsSealed t) : Scan.start.Passes t := passes_of_closesFrom h 0

theorem IsSealed.branches (h : IsSealed t) : branches t = [t] := branches_of_passes h.passes

/-- Sealed texts are a row. -/
theorem isRow_of_isSealed {ts : List Text} (hne : ts ≠ []) (h : ∀ t ∈ ts, IsSealed t) :
    IsRow ts := by
  induction ts with
  | nil => exact absurd rfl hne
  | cons t ts ih =>
    have ht : IsSealed t := h t List.mem_cons_self
    cases ts with
    | nil => exact .last ht.passes
    | cons u ts =>
      exact .bar ht.passes (run_of_closesFrom ht 0).1
        (ih (List.cons_ne_nil u ts) fun v hv => h v (List.mem_cons_of_mem t hv))

/-- Sealed texts with bars between them are split into themselves. -/
theorem branches_intercalate {ts : List Text} (hne : ts ≠ []) (h : ∀ t ∈ ts, IsSealed t) :
    XPath.branches (List.intercalate ['|'] ts) = ts :=
  (isRow_of_isSealed hne h).branches_intercalate

end

end TreeQuery.XPath
