import TreeQuery.Text.Basic

/-!
# Unions as text

An expression is split at the bars outside brackets, parentheses and quotes, without being read; the
branches can then be anchored at a context node one by one.

Main statement: `join_branches`, the branches with bars between them are the expression.
-/

namespace TreeQuery.XPath

/-! ### Branches

A text is gone through from its front, and the branches of the rest are known when a character is
put in front of them. The depth may become negative, where a parenthesis is closed that was not
opened; from there on no bar separates until the depth is zero again. -/

/-- Put characters at the front of the first branch. -/
def extendFirst (front : Text) : List Text → List Text
  | [] => [front]
  | b :: r => (front ++ b) :: r

/-- The branches of an expression, inside a quote if one is open, and at a depth of brackets and
parentheses that may be negative. Only depth zero separates. -/
def branchesFrom (quote : Option Char) (depth : Int) : Text → List Text
  | [] => [[]]
  | c :: r =>
    match quote with
    | some q => extendFirst [c] (branchesFrom (if c = q then none else some q) depth r)
    | none =>
      if c = '\'' || c = '"' then extendFirst [c] (branchesFrom (some c) depth r)
      else if c = '[' || c = '(' then extendFirst [c] (branchesFrom none (depth + 1) r)
      else if c = ']' || c = ')' then extendFirst [c] (branchesFrom none (depth - 1) r)
      else if c = '|' && depth = 0 then [] :: branchesFrom none depth r
      else extendFirst [c] (branchesFrom none depth r)

def branches (expression : Text) : List Text := branchesFrom none 0 expression

/-! ### Anchors

An expression that begins with a slash begins at the document wherever it is evaluated. To search
below a node, a point is put in front of the slash of each branch. Parentheses in front of the slash
stay in front. -/

/-- A branch that begins at the document, made to begin at the context node: a point before the
leading slash, behind any leading parentheses. -/
def anchor (branch : Text) : Text :=
  let opening := branch.takeWhile (· == '(')
  match branch.dropWhile (· == '(') with
  | '/' :: r => opening ++ '.' :: '/' :: r
  | r => opening ++ r

/-- An expression with every branch made to begin at the context node. -/
def anchorAll (expression : Text) : Text :=
  List.intercalate ['|'] ((branches expression).map anchor)

/-! ### Nothing is lost

The bars between the branches are all that is taken away, in whatever state the branches are read.
-/

theorem intercalate_cons_cons (b c : Text) (r : List Text) :
    List.intercalate ['|'] (b :: c :: r) = b ++ '|' :: List.intercalate ['|'] (c :: r) := by
  simp [List.intercalate]

theorem extendFirst_ne_nil (front : Text) (l : List Text) : extendFirst front l ≠ [] := by
  cases l <;> simp [extendFirst]

theorem branchesFrom_ne_nil (quote : Option Char) (depth : Int) (s : Text) :
    branchesFrom quote depth s ≠ [] := by
  fun_induction branchesFrom quote depth s <;> simp [extendFirst_ne_nil]

/-- Characters in front of the first branch stand in front of the whole. -/
theorem intercalate_extendFirst (front : Text) {l : List Text} (h : l ≠ []) :
    List.intercalate ['|'] (extendFirst front l) = front ++ List.intercalate ['|'] l := by
  cases l with
  | nil => exact absurd rfl h
  | cons b r => cases r <;> simp [extendFirst, List.intercalate]

/-- The statement for any quote and depth, which the induction needs. -/
theorem intercalate_branchesFrom (quote : Option Char) (depth : Int) (s : Text) :
    List.intercalate ['|'] (branchesFrom quote depth s) = s := by
  fun_induction branchesFrom quote depth s with
  | case1 => simp [List.intercalate]
  | case6 depth c r _ _ _ h ih =>
    -- A bar outside everything: the branch in front of it is empty.
    have hne := branchesFrom_ne_nil none depth r
    cases hb : branchesFrom none depth r with
    | nil => exact absurd hb hne
    | cons b l =>
      rw [hb] at ih
      have hc : c = '|' := by simp at h; exact h.1
      rw [intercalate_cons_cons, ih, hc]; rfl
  | _ => simp_all [intercalate_extendFirst, branchesFrom_ne_nil]

/-- With bars between them, the branches are the expression. -/
theorem join_branches (expression : Text) :
    List.intercalate ['|'] (branches expression) = expression :=
  intercalate_branchesFrom none 0 expression

end TreeQuery.XPath
