import TreeQuery.Text.Name
import TreeQuery.XPath.Expr

/-!
# Tokens of expressions

The characters of an expression are divided into tokens, of which the longest possible is always
taken; white space may stand between them. What a name or a star is depends on its place: behind a
token that needs an operand it is a part of one, behind any other it is an operator. This is how the
language is defined; it is independent of how expressions are read when they are evaluated.

Main statement: `Tokens.unique`, a text can be divided in one way only.
-/

namespace TreeQuery.XPath

namespace Grammar

/-- The kinds of tokens. -/
inductive Kind where
  /-- Brackets, points, commas, the sign of attributes and the colons of axes. -/
  | mark
  | nameTest
  | nodeType
  | operator
  | functionName
  | axisName
  | literal
  | number
  | variable
  deriving DecidableEq, Repr

/-- A token: its kind, and the characters it is made of. -/
structure Token where
  kind : Kind
  text : Text
  deriving DecidableEq, Repr

/-- A mark, as a token. -/
abbrev mark (sign : String) : Token := ⟨.mark, sign.toList⟩

/-- An operator, as a token. -/
abbrev operator (sign : String) : Token := ⟨.operator, sign.toList⟩

/-- Whether an operand has to follow a token. -/
def Token.needsOperand (t : Token) : Bool :=
  t.kind == .operator || [mark "@", mark "::", mark "(", mark "[", mark ","].contains t

/-! ## Names

A name may have a qualifier, with a colon between the two and no white space. Where an operator is
due, only four names can stand, and where an operand is due they are names like any other. -/

/-- The names that are operators behind an operand. -/
def operatorNames : List Text := ["and".toList, "or".toList, "mod".toList, "div".toList]

/-- The names of the types of nodes. -/
def nodeTypes : List Text :=
  ["comment".toList, "text".toList, "processing-instruction".toList, "node".toList]

/-- The kind of a name that stands for an operand, by what stands behind it. -/
def kindOf? (n r : Text) : Option Kind :=
  match r.dropWhile Text.isSpace with
  | '(' :: _ => some (if n ∈ nodeTypes then .nodeType else .functionName)
  | ':' :: ':' :: _ => if n ∈ Axis.all.map Axis.name then some .axisName else none
  | _ => some .nameTest

/-- The token that a name without a colon begins. -/
def readNamed? (operand : Bool) (n r : Text) : Option (Token × Text) :=
  if operand then
    match r with
    | ':' :: '*' :: r' => some (⟨.nameTest, n ++ ":*".toList⟩, r')
    | ':' :: r' =>
      match Text.readName? r' with
      | some (l, r'') => (kindOf? (n ++ ':' :: l) r'').map fun k => (⟨k, n ++ ':' :: l⟩, r'')
      | none => (kindOf? n r).map fun k => (⟨k, n⟩, r)
    | _ => (kindOf? n r).map fun k => (⟨k, n⟩, r)
  else if n ∈ operatorNames then some (⟨.operator, n⟩, r)
  else none

/-- The variable behind its sign. -/
def readVariable? (s : Text) : Option (Token × Text) :=
  match Text.readName? s with
  | some (n, ':' :: r) =>
    match Text.readName? r with
    | some (l, r') => some (⟨.variable, '$' :: n ++ ':' :: l⟩, r')
    | none => some (⟨.variable, '$' :: n⟩, ':' :: r)
  | some (n, r) => some (⟨.variable, '$' :: n⟩, r)
  | none => none

/-! ## Texts and numbers -/

/-- A text behind the quote that opens it. -/
def readLiteral? (q : Char) (s : Text) : Option (Token × Text) :=
  match s.dropWhile (· != q) with
  | _ :: r => some (⟨.literal, q :: s.takeWhile (· != q) ++ [q]⟩, r)
  | [] => none

/-- Digits, with a point among them or not. -/
def readNumber? (s : Text) : Option (Token × Text) :=
  let whole := s.takeWhile Char.isDigit
  match s.dropWhile Char.isDigit with
  | '.' :: r =>
    let part := r.takeWhile Char.isDigit
    if whole.isEmpty && part.isEmpty then none
    else some (⟨.number, whole ++ '.' :: part⟩, r.dropWhile Char.isDigit)
  | r => if whole.isEmpty then none else some (⟨.number, whole⟩, r)

/-! ## Signs

No sign is taken where a longer one begins in the same way; the list has the longer ones first. -/

/-- The signs that are no names, longer ones before those that they begin with. -/
def signs : List Token :=
  [mark "(", mark ")", mark "[", mark "]", mark "..", mark ".", mark "@", mark ",", mark "::",
    operator "//", operator "/", operator "|", operator "+", operator "-", operator "=",
    operator "!=", operator "<=", operator "<", operator ">=", operator ">"]

/-- The sign that a text begins with. -/
def readSign? (s : Text) : Option (Token × Text) :=
  signs.findSome? fun t => (Text.after? t.text s).map fun r => (t, r)

/-! ## Tokens

What a token is depends on the one in front of it, but only by whether that needs an operand. This
is the first index of the relation, and the only thing that is known of what stands in front. -/

/-- The token that a text begins with if it is no name. -/
def readOther? (operand : Bool) (s : Text) : Option (Token × Text) :=
  match s with
  | [] => none
  | '*' :: r => some (⟨if operand then .nameTest else .operator, ['*']⟩, r)
  | '$' :: r => readVariable? r
  | '\'' :: r => readLiteral? '\'' r
  | '"' :: r => readLiteral? '"' r
  | s => (readNumber? s).or (readSign? s)

/-- The token that a text begins with, and what follows it. -/
def token? (operand : Bool) (s : Text) : Option (Token × Text) :=
  match Text.readName? s with
  | some (n, r) => readNamed? operand n r
  | none => readOther? operand s

/-- The tokens of a text that stands behind a token that needs an operand, or behind another. -/
inductive Tokens : Bool → Text → List Token → Prop where
  | nil {operand : Bool} : Tokens operand [] []
  | space {operand : Bool} {c : Char} {r : Text} {ts : List Token} (hc : Text.isSpace c = true)
      (h : Tokens operand r ts) : Tokens operand (c :: r) ts
  | token {operand : Bool} {s r : Text} {t : Token} {ts : List Token}
      (ht : token? operand s = some (t, r)) (h : Tokens t.needsOperand r ts) :
      Tokens operand s (t :: ts)

theorem token?_space {c : Char} (h : Text.isSpace c = true) (operand : Bool) (r : Text) :
    token? operand (c :: r) = none := by
  simp only [Text.isSpace, Bool.or_eq_true, decide_eq_true_eq, or_assoc] at h
  rcases h with rfl | rfl | rfl | rfl <;> rfl

/-- A text can be divided into tokens in one way only. -/
theorem Tokens.unique {operand : Bool} {s : Text} {ts us : List Token} (ht : Tokens operand s ts)
    (hu : Tokens operand s us) : ts = us := by
  induction ht generalizing us with
  | nil =>
    cases hu with
    | nil => rfl
    | token hu => cases hu
  | space hc _ ih =>
    cases hu with
    | space _ hu => exact ih hu
    | token hu =>
      rw [token?_space hc] at hu
      cases hu
  | token ht h ih =>
    cases hu with
    | nil => cases ht
    | space hc _ =>
      rw [token?_space hc] at ht
      cases ht
    | token hu h' =>
      cases ht.symm.trans hu
      rw [ih h']

/-- Leading white space is no token. -/
theorem Tokens.spaces {operand : Bool} {g r : Text} {ts : List Token}
    (hg : g.all Text.isSpace = true) (h : Tokens operand r ts) : Tokens operand (g ++ r) ts := by
  induction g with
  | nil => exact h
  | cons c g ih =>
    rw [List.all_cons, Bool.and_eq_true] at hg
    exact .space hg.1 (ih hg.2)

end Grammar

end TreeQuery.XPath
