import TreeQuery.Proofs.Grammar.Tokens

/-!
# The grammar of expressions

Which rows of tokens are expressions, production by production. As in the grammar of the language,
an expression takes operators and a path takes steps and predicates at its end.

Main definitions: `Derives` and `IsExpression`. Main statement: `Trail.derives`, a path may go on
with a step wherever one may stand.
-/

namespace TreeQuery.XPath.Grammar

inductive Part where
  /-- The operands from a level on, from those of `or` at level zero to those of `*` at level five;
  at level six a sign may stand in front. -/
  | operand (level : Nat)
  | union
  | path
  | filter
  | primary
  | arguments
  | location
  | relative
  | step
  /-- The axis and the test of a step. -/
  | axisTest
  | nodeTest
  | predicates

def operators : Nat → List Token
  | 0 => [operator "or"]
  | 1 => [operator "and"]
  | 2 => [operator "=", operator "!="]
  | 3 => [operator "<", operator ">", operator "<=", operator ">="]
  | 4 => [operator "+", operator "-"]
  | 5 => [operator "*", operator "div", operator "mod"]
  | _ => []

/-! Each constructor is a production of the grammar; the comments give the names that the
productions have in the definition of the language. The tokens are put together with `++` and not
with constructors of trees, so that a part can be extended at its end. -/

/-- The rows of tokens that a part can be. -/
inductive Derives : Part → List Token → Prop where
  -- OrExpr, AndExpr, EqualityExpr, RelationalExpr, AdditiveExpr, MultiplicativeExpr
  | tighter {k : Nat} {a : List Token} (hk : k < 6) (h : Derives (.operand (k + 1)) a) :
      Derives (.operand k) a
  | binary {k : Nat} {o : Token} {a b : List Token} (ho : o ∈ operators k)
      (ha : Derives (.operand k) a) (hb : Derives (.operand (k + 1)) b) :
      Derives (.operand k) (a ++ o :: b)
  -- UnaryExpr
  | unsigned {a : List Token} (h : Derives .union a) : Derives (.operand 6) a
  | signed {a : List Token} (h : Derives (.operand 6) a) :
      Derives (.operand 6) (operator "-" :: a)
  -- UnionExpr
  | single {a : List Token} (h : Derives .path a) : Derives .union a
  | joined {a b : List Token} (ha : Derives .union a) (hb : Derives .path b) :
      Derives .union (a ++ operator "|" :: b)
  -- PathExpr
  | ofLocation {a : List Token} (h : Derives .location a) : Derives .path a
  | ofFilter {a : List Token} (h : Derives .filter a) : Derives .path a
  | inFilter {a b : List Token} (ha : Derives .filter a) (hb : Derives .relative b) :
      Derives .path (a ++ operator "/" :: b)
  | belowFilter {a b : List Token} (ha : Derives .filter a) (hb : Derives .relative b) :
      Derives .path (a ++ operator "//" :: b)
  -- FilterExpr
  | ofPrimary {a : List Token} (h : Derives .primary a) : Derives .filter a
  | given {a b : List Token} (ha : Derives .filter a) (hb : Derives (.operand 0) b) :
      Derives .filter (a ++ mark "[" :: b ++ [mark "]"])
  -- PrimaryExpr
  | variable (n : Text) : Derives .primary [⟨.variable, n⟩]
  | enclosed {a : List Token} (h : Derives (.operand 0) a) :
      Derives .primary (mark "(" :: a ++ [mark ")"])
  | literal (t : Text) : Derives .primary [⟨.literal, t⟩]
  | number (n : Text) : Derives .primary [⟨.number, n⟩]
  -- FunctionCall, Argument
  | callNil (f : Text) : Derives .primary [⟨.functionName, f⟩, mark "(", mark ")"]
  | call (f : Text) {a : List Token} (h : Derives .arguments a) :
      Derives .primary (⟨.functionName, f⟩ :: mark "(" :: a ++ [mark ")"])
  | one {a : List Token} (h : Derives (.operand 0) a) : Derives .arguments a
  | more {a b : List Token} (ha : Derives (.operand 0) a) (hb : Derives .arguments b) :
      Derives .arguments (a ++ mark "," :: b)
  -- LocationPath, AbsoluteLocationPath
  | ofRelative {a : List Token} (h : Derives .relative a) : Derives .location a
  | root : Derives .location [operator "/"]
  | inRoot {a : List Token} (h : Derives .relative a) : Derives .location (operator "/" :: a)
  | anywhere {a : List Token} (h : Derives .relative a) : Derives .location (operator "//" :: a)
  -- RelativeLocationPath
  | ofStep {a : List Token} (h : Derives .step a) : Derives .relative a
  | onward {a b : List Token} (ha : Derives .relative a) (hb : Derives .step b) :
      Derives .relative (a ++ operator "/" :: b)
  | downward {a b : List Token} (ha : Derives .relative a) (hb : Derives .step b) :
      Derives .relative (a ++ operator "//" :: b)
  -- Step, Predicate
  | here : Derives .step [mark "."]
  | parent : Derives .step [mark ".."]
  | step {a b : List Token} (ha : Derives .axisTest a) (hb : Derives .predicates b) :
      Derives .step (a ++ b)
  | noPredicate : Derives .predicates []
  | predicate {a b : List Token} (ha : Derives .predicates a) (hb : Derives (.operand 0) b) :
      Derives .predicates (a ++ (mark "[" :: b ++ [mark "]"]))
  -- AxisSpecifier
  | along (axis : Text) {a : List Token} (h : Derives .nodeTest a) :
      Derives .axisTest (⟨.axisName, axis⟩ :: mark "::" :: a)
  | attribute {a : List Token} (h : Derives .nodeTest a) : Derives .axisTest (mark "@" :: a)
  | child {a : List Token} (h : Derives .nodeTest a) : Derives .axisTest a
  -- NodeTest
  | nameTest (n : Text) : Derives .nodeTest [⟨.nameTest, n⟩]
  | nodeType (n : Text) : Derives .nodeTest [⟨.nodeType, n⟩, mark "(", mark ")"]
  | instruction (t : Text) : Derives .nodeTest
      [⟨.nodeType, "processing-instruction".toList⟩, mark "(", ⟨.literal, t⟩, mark ")"]

/-- What can stand at a tight level can stand at a looser one. -/
theorem Derives.loose {k j : Nat} {a : List Token} (h : Derives (.operand k) a) (hj : j ≤ k)
    (hk : k ≤ 6) : Derives (.operand j) a := by
  obtain ⟨n, rfl⟩ := Nat.exists_eq_add_of_le hj
  induction n with
  | zero => exact h
  | succ n ih => exact ih (.tighter (by omega) h) (by omega) (by omega)

/-- A path is an operand at every level. -/
theorem Derives.ofPath {k : Nat} {a : List Token} (h : Derives .path a) (hk : k ≤ 6) :
    Derives (.operand k) a :=
  Derives.loose (.unsigned (.single h)) hk (Nat.le_refl 6)

/-! ## Expressions -/

/-- A character of a document, and so of the expressions for it. -/
def isChar (c : Char) : Bool :=
  c = '\t' || c = '\n' || c = '\r' || (0x20 ≤ c.toNat && c.toNat ≤ 0xD7FF) ||
    (0xE000 ≤ c.toNat && c.toNat ≤ 0xFFFD) || (0x10000 ≤ c.toNat && c.toNat ≤ 0x10FFFF)

/-- A text of characters of documents whose tokens are an expression. -/
def IsExpression (t : Text) : Prop :=
  t.all isChar = true ∧ ∃ ts, Tokens true t ts ∧ Derives (.operand 0) ts

/-! ## Paths that go on

The productions build a path from its beginning: a step is added behind a relative path, and a
relative path behind a filter. A text is read from its beginning too, but at a slash it is not yet
known which production the step behind it belongs to. `Trail` is what stands in front of that step,
whichever production it will be. -/

/-- The tokens in front of a step of a path. -/
inductive Trail : List Token → Prop where
  | start : Trail []
  | root : Trail [operator "/"]
  | anywhere : Trail [operator "//"]
  | inFilter {a : List Token} (h : Derives .filter a) : Trail (a ++ [operator "/"])
  | belowFilter {a : List Token} (h : Derives .filter a) : Trail (a ++ [operator "//"])
  | onward {a b : List Token} (h : Trail a) (hb : Derives .step b) :
      Trail (a ++ b ++ [operator "/"])
  | downward {a b : List Token} (h : Trail a) (hb : Derives .step b) :
      Trail (a ++ b ++ [operator "//"])

/-- What stands in front of a step is the beginning of a path with steps behind it, perhaps none. -/
theorem Trail.exists_append {a : List Token} (h : Trail a) : ∃ front steps, a = front ++ steps ∧
    (∀ b, Derives .relative b → Derives .path (front ++ b)) ∧
      ∀ s, Derives .step s → Derives .relative (steps ++ s) := by
  -- Behind a filter or the root the relative path is still to begin; behind a step it has begun,
  -- and the path is divided where it did.
  induction h with
  | start => exact ⟨[], [], rfl, fun _ h => .ofLocation (.ofRelative h), fun _ h => .ofStep h⟩
  | root =>
    exact ⟨[operator "/"], [], rfl, fun _ h => .ofLocation (.inRoot h), fun _ h => .ofStep h⟩
  | anywhere =>
    exact ⟨[operator "//"], [], rfl, fun _ h => .ofLocation (.anywhere h), fun _ h => .ofStep h⟩
  | @inFilter a ha =>
    refine ⟨a ++ [operator "/"], [], (List.append_nil _).symm, fun b h => ?_, fun _ h => .ofStep h⟩
    rw [List.append_assoc]
    exact .inFilter ha h
  | @belowFilter a ha =>
    refine ⟨a ++ [operator "//"], [], (List.append_nil _).symm, fun b h => ?_, fun _ h => .ofStep h⟩
    rw [List.append_assoc]
    exact .belowFilter ha h
  | @onward a b _ hb ih =>
    obtain ⟨front, steps, rfl, hpath, hsteps⟩ := ih
    refine ⟨front, steps ++ b ++ [operator "/"], by simp, hpath, fun s hs => ?_⟩
    rw [List.append_assoc]
    exact .onward (hsteps b hb) hs
  | @downward a b _ hb ih =>
    obtain ⟨front, steps, rfl, hpath, hsteps⟩ := ih
    refine ⟨front, steps ++ b ++ [operator "//"], by simp, hpath, fun s hs => ?_⟩
    rw [List.append_assoc]
    exact .downward (hsteps b hb) hs

/-- A path ends in a step wherever one may stand. -/
theorem Trail.derives {a s : List Token} (h : Trail a) (hs : Derives .step s) :
    Derives .path (a ++ s) := by
  obtain ⟨front, steps, rfl, hpath, hsteps⟩ := h.exists_append
  rw [List.append_assoc]
  exact hpath _ (hsteps s hs)

end TreeQuery.XPath.Grammar
