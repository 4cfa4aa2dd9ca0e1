import TreeQuery.XPath.Union

/-!
# The scan of an expression

An expression is split at its bars without being read, by a scan that knows a quote that is open and
a depth of brackets. Where a bar separates, the scan is where it began. So each branch is scanned as
it would be alone, whatever it leaves open or closes too much of, and the branches are told from the
text: they are the texts with bars between them that make it up, where the scan of each but the last
comes back to its start, and no bar in any of them stands where it does.

Main statement: `branches_eq_iff`.
-/

namespace TreeQuery.XPath

/-! ## Scanning

The recursion that finds the branches carries a quote and a depth along. They are made one state
here, and going on by one character is one function on it, so that what is said of a text can be
said of its end by composition. -/

/-- How far the scan of an expression has come. -/
structure Scan where
  /-- The quote that is open, if one is. -/
  quote : Option Char
  /-- The brackets and parentheses opened so far less those closed. -/
  depth : Int
  deriving DecidableEq, Repr

namespace Scan

def start : Scan := ⟨none, 0⟩

def step (s : Scan) (c : Char) : Scan :=
  match s.quote with
  | some q => if c = q then ⟨none, s.depth⟩ else s
  | none =>
    if c = '\'' || c = '"' then ⟨some c, s.depth⟩
    else if c = '[' || c = '(' then ⟨none, s.depth + 1⟩
    else if c = ']' || c = ')' then ⟨none, s.depth - 1⟩
    else s

def run (s : Scan) (t : Text) : Scan := t.foldl step s

def separates (s : Scan) (c : Char) : Bool := s.quote.isNone && (c = '|' && s.depth = 0)

theorem run_cons (s : Scan) (c : Char) (t : Text) : s.run (c :: t) = (s.step c).run t := rfl

theorem run_append (s : Scan) (a b : Text) : s.run (a ++ b) = (s.run a).run b := List.foldl_append

/-- The branches of an expression are where the scan separates. -/
theorem branchesFrom_cons (s : Scan) (c : Char) (r : Text) :
    branchesFrom s.quote s.depth (c :: r) =
      if s.separates c then [] :: branchesFrom (s.step c).quote (s.step c).depth r
      else extendFirst [c] (branchesFrom (s.step c).quote (s.step c).depth r) := by
  obtain ⟨quote, depth⟩ := s
  cases quote with
  | some q =>
    rw [branchesFrom]
    by_cases hq : c = q <;> simp [separates, step, hq]
  | none =>
    rw [branchesFrom]
    simp only [separates, step, Option.isNone_none, Bool.true_and]
    -- The kinds of characters in the order in which the recursion asks for them.
    by_cases h1 : (decide (c = '\'') || decide (c = '"')) = true
    · have hbar : c ≠ '|' := by rintro rfl; exact absurd h1 (by decide)
      simp [h1, hbar]
    · by_cases h2 : (decide (c = '[') || decide (c = '(')) = true
      · have hbar : c ≠ '|' := by rintro rfl; exact absurd h2 (by decide)
        simp [h1, h2, hbar]
      · by_cases h3 : (decide (c = ']') || decide (c = ')')) = true
        · have hbar : c ≠ '|' := by rintro rfl; exact absurd h3 (by decide)
          simp [h1, h2, h3, hbar]
        · simp only [h1, h2, h3]
          rfl

end Scan

/-! ## Texts that are not split

A text passes if none of its bars stands where the scan is at its start. For the scan this is a
property of the text and of the state it begins in; it is preserved by cutting a character off, and
two texts pass one behind the other if each does in its own state. That is all that is needed of
bars. -/

theorem extendFirst_extendFirst (a b : Text) {l : List Text} :
    extendFirst a (extendFirst b l) = extendFirst (a ++ b) l := by
  cases l <;> simp [extendFirst]

namespace Scan

/-- No bar in a text stands where the scan of the text is at its start. -/
def Passes (s : Scan) (t : Text) : Prop :=
  ∀ front rest, t = front ++ '|' :: rest → s.run front ≠ start

section

variable {s : Scan} {c : Char} {a b t : Text}

/-- Only a bar separates, and only at the start of the scan. -/
theorem separates_iff : s.separates c = true ↔ c = '|' ∧ s = start := by
  obtain ⟨quote, depth⟩ := s
  cases quote <;> simp [separates, start]

theorem passes_nil (s : Scan) : s.Passes [] := by
  intro front rest h
  cases front <;> cases h

/-- A text passes if the scan does not separate in front of its first character and the rest passes.
-/
theorem passes_cons : s.Passes (c :: t) ↔ s.separates c = false ∧ (s.step c).Passes t := by
  constructor
  · intro h
    refine ⟨?_, fun front rest ht => h (c :: front) rest (by rw [ht]; rfl)⟩
    rw [← Bool.not_eq_true, separates_iff]
    rintro ⟨rfl, hs⟩
    exact h [] t rfl hs
  · rintro ⟨hc, ht⟩ front rest heq
    -- The bar in question is the first character, or one of the rest.
    cases front with
    | nil =>
      obtain ⟨rfl, -⟩ := List.cons.inj heq
      intro hs
      have hbar : s.separates '|' = true := separates_iff.2 ⟨rfl, hs⟩
      rw [hbar] at hc
      cases hc
    | cons d front =>
      obtain ⟨rfl, rfl⟩ := List.cons.inj heq
      exact ht front rest rfl

theorem passes_append : s.Passes (a ++ b) ↔ s.Passes a ∧ (s.run a).Passes b := by
  induction a generalizing s with
  | nil => exact ⟨fun h => ⟨passes_nil s, h⟩, And.right⟩
  | cons c a ih => rw [List.cons_append, passes_cons, passes_cons, ih, and_assoc, run_cons]

/-- A text without a place to split it stays in one piece, whatever stands behind it. -/
theorem Passes.branchesFrom_append (h : s.Passes a) (b : Text) :
    branchesFrom s.quote s.depth (a ++ b) =
      extendFirst a (branchesFrom (s.run a).quote (s.run a).depth b) := by
  induction a generalizing s with
  | nil =>
    obtain ⟨l, r, hl⟩ := List.exists_cons_of_ne_nil (branchesFrom_ne_nil s.quote s.depth b)
    show branchesFrom s.quote s.depth b = extendFirst [] (branchesFrom s.quote s.depth b)
    rw [hl]
    rfl
  | cons c a ih =>
    obtain ⟨hc, ha⟩ := passes_cons.1 h
    rw [List.cons_append, branchesFrom_cons, hc, ih ha, run_cons]
    exact extendFirst_extendFirst [c] a

/-- Any text is either not split or split first at some bar. -/
theorem passes_or_exists (s : Scan) (t : Text) : s.Passes t ∨
    ∃ front rest, t = front ++ '|' :: rest ∧ s.Passes front ∧ s.run front = start := by
  induction t generalizing s with
  | nil => exact .inl (passes_nil s)
  | cons c t ih =>
    cases hc : s.separates c with
    | true =>
      obtain ⟨rfl, hs⟩ := separates_iff.1 hc
      exact .inr ⟨[], t, rfl, passes_nil s, hs⟩
    | false =>
      rcases ih (s.step c) with ht | ⟨front, rest, rfl, hfront, hrun⟩
      · exact .inl (passes_cons.2 ⟨hc, ht⟩)
      · exact .inr ⟨c :: front, rest, rfl, passes_cons.2 ⟨hc, hfront⟩, hrun⟩

end

end Scan

theorem branches_of_passes {t : Text} (h : Scan.start.Passes t) : branches t = [t] := by
  have := h.branchesFrom_append []
  rw [List.append_nil] at this
  show branchesFrom Scan.start.quote Scan.start.depth t = [t]
  rw [this]
  simp [branchesFrom, extendFirst]

/-- At the first bar that separates the rest is split on its own. -/
theorem branches_bar {t : Text} (h : Scan.start.Passes t) (hrun : Scan.start.run t = .start)
    (r : Text) : branches (t ++ '|' :: r) = t :: branches r := by
  have hbar : branchesFrom Scan.start.quote Scan.start.depth ('|' :: r) = [] :: branches r := by
    simp [branches, branchesFrom, Scan.start]
  show branchesFrom Scan.start.quote Scan.start.depth (t ++ '|' :: r) = t :: branches r
  rw [h.branchesFrom_append, hrun, hbar, extendFirst, List.append_nil]

/-! ## Rows of branches

A row is what branches can be: texts that pass, each but the last of which brings the scan back to
its start. Rows are an inductive family, so that facts about all branches of an expression are
inductions on a row, with no index of a list in them. -/

/-- Texts that stay what they are with bars between them: none of them is split, and behind each but
the last the scan is at its start. -/
inductive IsRow : List Text → Prop
  | last {t : Text} : Scan.start.Passes t → IsRow [t]
  | bar {t : Text} {ts : List Text} : Scan.start.Passes t → Scan.start.run t = .start → IsRow ts →
      IsRow (t :: ts)

namespace IsRow

variable {ts : List Text} {t : Text}

theorem ne_nil (h : IsRow ts) : ts ≠ [] := by
  cases h <;> exact List.cons_ne_nil _ _

theorem passes (h : IsRow ts) (ht : t ∈ ts) : Scan.start.Passes t := by
  induction h with
  | last hp =>
    obtain rfl := List.mem_singleton.1 ht
    exact hp
  | bar hp _ _ ih =>
    rcases List.mem_cons.1 ht with rfl | ht
    · exact hp
    · exact ih ht

/-- What changes neither how the scan of a text ends nor whether the text is split can be done to
all texts of a row. -/
theorem map {f : Text → Text} (hpasses : ∀ t, Scan.start.Passes t → Scan.start.Passes (f t))
    (hrun : ∀ t, Scan.start.run (f t) = Scan.start.run t) (h : IsRow ts) : IsRow (ts.map f) := by
  induction h with
  | last hp => exact .last (hpasses _ hp)
  | bar hp hr _ ih => exact .bar (hpasses _ hp) ((hrun _).trans hr) ih

theorem intercalate_cons (h : IsRow ts) (t : Text) :
    List.intercalate ['|'] (t :: ts) = t ++ '|' :: List.intercalate ['|'] ts := by
  obtain ⟨u, us, rfl⟩ := List.exists_cons_of_ne_nil h.ne_nil
  exact intercalate_cons_cons t u us

/-- The texts of a row are the branches of what they make up. -/
theorem branches_intercalate (h : IsRow ts) : branches (List.intercalate ['|'] ts) = ts := by
  induction h with
  | last hp =>
    rw [List.intercalate_singleton]
    exact branches_of_passes hp
  | bar hp hr hrow ih => rw [hrow.intercalate_cons, branches_bar hp hr, ih]

end IsRow

/-- Every text is made up of a row. The induction is on its length, the first text of the row taken
off. -/
theorem exists_isRow (x : Text) : ∃ ts, IsRow ts ∧ List.intercalate ['|'] ts = x := by
  induction hn : x.length using Nat.strongRecOn generalizing x with
  | _ n ih =>
    rcases Scan.passes_or_exists .start x with hx | ⟨t, r, rfl, ht, hrun⟩
    · exact ⟨[x], .last hx, List.intercalate_singleton⟩
    · have hlength : r.length < n := by
        rw [← hn, List.length_append, List.length_cons]
        omega
      obtain ⟨ts, hts, rfl⟩ := ih r.length hlength r rfl
      exact ⟨t :: ts, .bar ht hrun hts, hts.intercalate_cons t⟩

theorem isRow_branches (x : Text) : IsRow (branches x) := by
  obtain ⟨ts, hts, rfl⟩ := exists_isRow x
  rw [hts.branches_intercalate]
  exact hts

/-- Which texts the branches are. -/
theorem branches_eq_iff {x : Text} {ts : List Text} :
    branches x = ts ↔ IsRow ts ∧ List.intercalate ['|'] ts = x := by
  constructor
  · rintro rfl
    exact ⟨isRow_branches x, join_branches x⟩
  · rintro ⟨h, rfl⟩
    exact h.branches_intercalate

end TreeQuery.XPath
