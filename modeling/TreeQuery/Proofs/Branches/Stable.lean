import TreeQuery.Proofs.Branches.Groups

/-!
# Anchoring any text

An expression is split and anchored without being read, so that both are done to any text, balanced
or not. The point that anchors a branch stands behind opening parentheses only, where no quote is
open, so that the scan passes over it. It moves no place at which the text is split, and the slash
behind it is no longer the first sign of its branch.

Main statement: `splits_and_anchors`.
-/

namespace TreeQuery.XPath

/-! ## Anchored branches

Anchoring puts a point behind the parentheses that a branch begins with. Whether a branch is split,
and where its scan ends, does not change by that: no quote is open behind opening parentheses, and
outside of quotes a point means nothing. So the anchored branches are a row again, whatever the
expression was, and this row is what splitting the anchored expression gives. -/

section

open Pattern (Anchors)

variable {t u : Text}

/-- A branch that does not begin with a slash behind its parentheses stays as it is. -/
theorem anchor_eq_self (h : (t.dropWhile (· == '(')).head? ≠ some '/') : anchor t = t := by
  have hsplit : t.takeWhile (· == '(') ++ t.dropWhile (· == '(') = t :=
    List.takeWhile_append_dropWhile
  rw [anchor]
  split
  · next r hr =>
    rw [hr] at h
    exact absurd rfl h
  · exact hsplit

/-- A branch is anchored at its slash, or stays as it is. -/
theorem anchors_anchor_or_eq (t : Text) : Anchors t (anchor t) ∨ anchor t = t := by
  by_cases h : (t.dropWhile (· == '(')).head? = some '/'
  · left
    obtain ⟨r, hr⟩ := List.head?_eq_some_iff.1 h
    -- The signs in front of the slash are opening parentheses and nothing else.
    have hopening : t.takeWhile (· == '(') = List.replicate (t.takeWhile (· == '(')).length '(' :=
      List.eq_replicate_of_mem fun c hc => by simpa using List.mem_takeWhile_imp hc
    have ht : Anchors t
        (List.replicate (t.takeWhile (· == '(')).length '(' ++ '.' :: '/' :: r) := by
      refine ⟨_, r, ?_, rfl⟩
      rw [← hopening, ← hr]
      exact List.takeWhile_append_dropWhile.symm
    rwa [ht.anchor_eq]
  · exact .inr (anchor_eq_self h)

/-- A point in front stops the slash from being the first sign. -/
theorem anchor_anchor (t : Text) : anchor (anchor t) = anchor t := by
  rcases anchors_anchor_or_eq t with ⟨k, r, -, hu⟩ | h
  · have hall : ∀ c ∈ List.replicate k '(', (c == '(') = true := fun c hc =>
      beq_iff_eq.2 (List.eq_of_mem_replicate hc)
    apply anchor_eq_self
    rw [hu, List.dropWhile_append_of_pos hall]
    simp
  · rw [h, h]

namespace Scan

/-- Opening parentheses open no quote. -/
theorem quote_run_parentheses {s : Scan} (h : s.quote = none) (k : Nat) :
    (s.run (List.replicate k '(')).quote = none := by
  induction k generalizing s with
  | zero => exact h
  | succ k ih =>
    obtain ⟨quote, depth⟩ := s
    obtain rfl : quote = none := h
    exact ih (s := ⟨none, depth + 1⟩) rfl

theorem step_point {s : Scan} (h : s.quote = none) : s.step '.' = s := by
  obtain ⟨quote, depth⟩ := s
  obtain rfl : quote = none := h
  rfl

/-- The scan of an anchored branch comes to where that of the branch does. -/
theorem run_of_anchors (h : Anchors t u) : start.run u = start.run t := by
  obtain ⟨k, r, rfl, rfl⟩ := h
  rw [run_append, run_append, run_cons, step_point (quote_run_parentheses rfl k)]

theorem passes_of_anchors (h : Anchors t u) (ht : start.Passes t) : start.Passes u := by
  obtain ⟨k, r, rfl, rfl⟩ := h
  rw [passes_append] at ht ⊢
  -- The point is no bar, and behind it the scan is where it was in front of it.
  refine ⟨ht.1, passes_cons.2 ⟨?_, ?_⟩⟩
  · rw [← Bool.not_eq_true, separates_iff]
    exact fun hpoint => absurd hpoint.1 (by decide)
  · rw [step_point (quote_run_parentheses rfl k)]
    exact ht.2

theorem run_anchor (t : Text) : start.run (anchor t) = start.run t := by
  rcases anchors_anchor_or_eq t with h | h
  · exact run_of_anchors h
  · rw [h]

/-- A branch that is not split is not split when it is anchored. -/
theorem passes_anchor (t : Text) (ht : start.Passes t) : start.Passes (anchor t) := by
  rcases anchors_anchor_or_eq t with h | h
  · exact passes_of_anchors h ht
  · rwa [h]

end Scan

/-- An anchored expression is split where the expression is. -/
theorem branches_anchorAll (x : Text) : branches (anchorAll x) = (branches x).map anchor :=
  ((isRow_branches x).map Scan.passes_anchor Scan.run_anchor).branches_intercalate

end

/-- Of any text, balanced or not, the branches with bars between them are the text, and they are the
only such texts of which none is split and each but the last brings the scan back to its start. A
branch is its own only branch. Anchoring changes the branches one by one, so that there are as many
of them as before, and to anchor once more changes nothing. -/
theorem splits_and_anchors (x : Text) :
    List.intercalate ['|'] (branches x) = x ∧
    (∀ ts, branches x = ts ↔ IsRow ts ∧ List.intercalate ['|'] ts = x) ∧
    (∀ b ∈ branches x, branches b = [b]) ∧
    branches (anchorAll x) = (branches x).map anchor ∧
    (branches (anchorAll x)).length = (branches x).length ∧
    anchorAll (anchorAll x) = anchorAll x := by
  refine ⟨join_branches x, fun ts => branches_eq_iff, fun b hb => ?_, branches_anchorAll x, ?_, ?_⟩
  · exact branches_of_passes ((isRow_branches x).passes hb)
  · rw [branches_anchorAll, List.length_map]
  · have hagain : (anchor ∘ anchor : Text → Text) = anchor := funext anchor_anchor
    rw [anchorAll, branches_anchorAll, List.map_map, hagain]
    rfl

/-- A bracket that is closed before it is opened, and a parenthesis and a quote that stay open: the
bar between the brackets separates nothing, nor does the one in the quote. -/
theorem splits_and_anchors_unbalanced :
    "]//b|c[".toList ∈ branches "((//a))|]//b|c[|(//d'|".toList ∧
    branches "]//b|c[".toList = ["]//b|c[".toList] ∧
    branches (anchorAll "((//a))|]//b|c[|(//d'|".toList) =
      ["((.//a))".toList, "]//b|c[".toList, "(.//d'|".toList] ∧
    anchorAll (anchorAll "((//a))|]//b|c[|(//d'|".toList) =
      "((.//a))|]//b|c[|(.//d'|".toList := by
  have hbranches : branches "((//a))|]//b|c[|(//d'|".toList =
      ["((//a))".toList, "]//b|c[".toList, "(//d'|".toList] := by decide
  have hmem : "]//b|c[".toList ∈ branches "((//a))|]//b|c[|(//d'|".toList := by
    rw [hbranches]
    simp
  obtain ⟨-, -, hbranch, hanchored, -, hagain⟩ :=
    splits_and_anchors "((//a))|]//b|c[|(//d'|".toList
  refine ⟨hmem, hbranch _ hmem, ?_, ?_⟩
  · rw [hanchored, hbranches]
    decide
  · rw [hagain, anchorAll, hbranches]
    decide

end TreeQuery.XPath
