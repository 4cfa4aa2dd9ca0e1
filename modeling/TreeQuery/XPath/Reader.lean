import TreeQuery.Text.Name
import TreeQuery.XPath.Expr

/-!
# Reading expressions

The text of an expression is read by one function per kind of part. Each returns what it has read
and what is left, with the proof that what is left is shorter; operators are read level by level,
from the loosest to the tightest. The measure of the recursion is the length of the text and, on the
same text, the level.

Names are recognised by their place: where an operand must stand, `and`, `or`, `div` and `mod` are
names of elements.
-/

namespace TreeQuery.XPath

namespace Expr

/-! ### Characters and names

White space may stand in front of what is read, but not inside a name, and between the two parts of
a qualified name there is none either. Where a reader is named `next?` it passes over white space
first, and where it is named `take?` it does not; the difference decides which texts are accepted,
so it is kept in each place. -/

/-- The text behind leading white space. -/
def skip (s : Text) : NoLonger s := Text.skip Text.isSpace s

/-- What stands behind a character that begins the text, white space in front of it aside. -/
def next? (c : Char) (s : Text) : Option (Shorter s) :=
  match skip s with
  | ⟨t, h⟩ =>
    match Text.take? c t with
    | some r => some (.below h r)
    | none => none

def readName? (s : Text) : Option (Text × Shorter s) :=
  match h : Text.readName? s with
  | some (n, r) => some (n, ⟨r, Text.length_of_readName? h⟩)
  | none => none

/-- A name with or without a qualifier. -/
def readQName? (s : Text) : Option (QName × Shorter s) :=
  match readName? s with
  | none => none
  | some (n, ⟨r, h⟩) =>
    match Text.take? ':' r with
    | none => some (⟨[], n⟩, ⟨r, h⟩)
    | some ⟨r', h'⟩ =>
      match readName? r' with
      | some (l, r'') => some (⟨n, l⟩, .inside h (.inside h' r''))
      | none => none

/-- A text up to a quote, and what stands behind it. -/
def readUpTo? (q : Char) : (s : Text) → Option (Text × Shorter s)
  | [] => none
  | c :: r =>
    if c = q then some ([], .behind c (.all r))
    else match readUpTo? q r with
      | some (t, r') => some (c :: t, .behind c r')
      | none => none

/-- A text between quotes of one kind. -/
def readLiteral? : (s : Text) → Option (Text × Shorter s)
  | [] => none
  | q :: r =>
    if q = '\'' || q = '"' then
      match readUpTo? q r with
      | some (t, r') => some (t, .behind q r')
      | none => none
    else none

def readNumber? (s : Text) : Option (Number × Shorter s) :=
  match Number.readNumber? s with
  | some (n, r) => if h : r.length < s.length then some (n, ⟨r, h⟩) else none
  | none => none

/-! ### Tests and axes

A step may begin with a name that turns out to be an axis, a kind of node or a test by what follows
it: two colons, parentheses, or anything else. -/

/-- Whether a name with parentheses behind it asks for the kind of a node. -/
def isNodeType (n : Text) : Bool :=
  n = "node".toList || n = "text".toList || n = "comment".toList
    || n = "processing-instruction".toList

/-- The test of a kind of node that takes no argument. -/
def nodeType? (n : Text) : Option NodeTest :=
  if n = "node".toList then some .node
  else if n = "text".toList then some .text
  else if n = "comment".toList then some .comment
  else if n = "processing-instruction".toList then some (.instruction none)
  else none

/-- The test of a kind of node, behind its opening parenthesis. -/
def readNodeType? (n s : Text) : Option (NodeTest × Shorter s) :=
  match next? ')' s with
  | some r => (nodeType? n).map fun t => (t, r)
  | none =>
    if n = "processing-instruction".toList then
      match skip s with
      | ⟨t, h⟩ =>
        match readLiteral? t with
        | none => none
        | some (target, ⟨r, h'⟩) =>
          match next? ')' r with
          | some r' => some (.instruction (some target), .below h (.inside h' r'))
          | none => none
    else none

/-- The test that begins with a name, behind that name. -/
def readTestAfter? (n s : Text) : Option (NodeTest × NoLonger s) :=
  match next? '(' s with
  | some ⟨r, h⟩ =>
    match readNodeType? n r with
    | some (t, r') => some (t, .inside h r')
    | none => none
  | none =>
    match Text.take? ':' s with
    | none => some (.name ⟨[], n⟩, .all s)
    | some ⟨r, h⟩ =>
      match Text.take? '*' r with
      | some r' => some (.anyNameIn n, .inside h r')
      | none =>
        match readName? r with
        | some (l, r') => some (.name ⟨n, l⟩, .inside h r')
        | none => none

def readTest? (s : Text) : Option (NodeTest × Shorter s) :=
  match next? '*' s with
  | some r => some (.anyName, r)
  | none =>
    match skip s with
    | ⟨t, h⟩ =>
      match readName? t with
      | none => none
      | some (n, ⟨r, h'⟩) =>
        match readTestAfter? n r with
        | some (test, r') => some (test, .below h (.inside h' r'))
        | none => none

/-- What stands behind the two colons of an axis. -/
def readColons? (s : Text) : Option (Shorter s) :=
  match next? ':' s with
  | none => none
  | some ⟨r, h⟩ =>
    match Text.take? ':' r with
    | some r' => some (.inside h r')
    | none => none

/-- The axis with a given name and the colons behind it, if both are there. -/
def readAxis? (n s : Text) : Option (Axis × Shorter s) :=
  match Axis.ofName? n with
  | none => none
  | some a => (readColons? s).map fun r => (a, r)

/-- The axis and test of a step that begins with a name. -/
def readNamedTest? (s : Text) : Option (Axis × NodeTest × Shorter s) :=
  match readName? s with
  | none => none
  | some (n, ⟨r, h⟩) =>
    match readAxis? n r with
    | some (a, ⟨r', h'⟩) =>
      match readTest? r' with
      | some (test, r'') => some (a, test, .inside h (.inside h' r''))
      | none => none
    | none =>
      match readTestAfter? n r with
      | some (test, r') => some (.child, test, .inside h r')
      | none => none

def readAxisTest? (s : Text) : Option (Axis × NodeTest × Shorter s) :=
  match Text.take? '*' s with
  | some r => some (.child, .anyName, r)
  | none =>
    match Text.take? '@' s with
    | some ⟨r, h⟩ =>
      match readTest? r with
      | some (test, r') => some (.attributes, test, .inside h r')
      | none => none
    | none => readNamedTest? s

/-! ### What begins here

A path and a primary expression are told apart by looking ahead, without reading anything: a wrong
guess is a fault, as no reader goes back. -/

/-- A character of a qualified name. -/
def isQNamePart (c : Char) : Bool := Text.isNamePart c || c = ':'

/-- Whether a name is that of a function: parentheses follow, and it is no kind of node. -/
def beginsWithCall (s : Text) : Bool :=
  let name := s.takeWhile isQNamePart
  if Text.holds name [':', ':'] then false
  else match (skip (s.dropWhile isQNamePart)).1 with
    | c :: _ => c = '(' && !isNodeType name
    | [] => false

/-- Whether a path begins with something else than a step: a variable, parentheses, a number, a
text or a function. None if nothing can begin here. -/
def beginsWithPrimary? : Text → Option Bool
  | [] => none
  | c :: r =>
    if c = '.' then some (match r with | d :: _ => d.isDigit | [] => false)
    else if c = '$' || c = '(' || c = '\'' || c = '"' || c.isDigit then some true
    else if c = '*' || c = '/' || c = '@' then some false
    else if Text.isNameStart c || c = ':' then some (beginsWithCall (c :: r))
    else none

/-- Whether a step may stand behind the slash that means the document. -/
def mayFollowRoot : Text → Bool
  | c :: _ => c.isAlpha || c = '_' || c = '.' || c = '@' || c = '*'
  | [] => false

/-! ### Operators

The levels are data, so that one reader serves them all. An operator that is a word is taken
wherever its letters begin what stands behind an operand, even if the word goes on. -/

/-- A sign for an operator. -/
abbrev Sign := Text × Operator

/-- The operators level by level, the loosest first; on one level the longer sign first. -/
def levels : List (List Sign) := [
  [("or".toList, .or)],
  [("and".toList, .and)],
  [("=".toList, .equal), ("!=".toList, .unequal)],
  [("<=".toList, .lessOrEqual), (">=".toList, .greaterOrEqual), ("<".toList, .less),
    (">".toList, .greater)],
  [("+".toList, .add), ("-".toList, .subtract)],
  [("*".toList, .multiply), ("div".toList, .divide), ("mod".toList, .modulo)]]

theorem length_levels : levels.length = 6 := rfl

/-- The operator of one level that a text begins with. -/
def readOperator? (signs : List Sign) (s : Text) : Option (Operator × NoLonger s) :=
  match signs with
  | [] => none
  | (sign, operator) :: signs =>
    match Text.skip? sign s with
    | some r => some (operator, r)
    | none => readOperator? signs s

/-- An expression with a sign in front of it, if there was one. -/
def signed : Option Bool → Expr → Expr
  | none, e => e
  | some true, e => negated e
  | some false, e => converted e

/-! ### Expressions

The readers call each other in a circle, from the levels down to the steps and by way of predicates,
parentheses and arguments back to the loosest level. Around the whole circle some character is
always taken, and inside it the second component of the measure, a number for each reader, goes
down. -/

/-- On a text that is not longer a lower level is a step down. -/
theorem lex_of_le {a b c d : Nat} (h : a ≤ b) (h' : c < d) :
    Prod.Lex (· < ·) (· < ·) (a, c) (b, d) := by
  rcases Nat.lt_or_eq_of_le h with h | rfl
  · exact Prod.Lex.left _ _ h
  · exact Prod.Lex.right _ h'

mutual

/-- The operands of the levels from the given one on, and the operators between them. -/
def readLevel (levels : List (List Sign)) (s : Text) : Option (Expr × Shorter s) :=
  match levels with
  | [] => readUnary none s
  | signs :: levels =>
    match readLevel levels s with
    | none => none
    | some (a, ⟨r, h⟩) =>
      match readChain signs levels a r with
      | some (e, r') => some (e, .inside h r')
      | none => none
termination_by (s.length, levels.length + 10)

/-- The operators of one level and the operands behind them. -/
def readChain (signs : List Sign) (levels : List (List Sign)) (a : Expr) (s : Text) :
    Option (Expr × NoLonger s) :=
  match skip s with
  | ⟨t, h⟩ =>
    match readOperator? signs t with
    | none => some (a, ⟨t, h⟩)
    | some (operator, ⟨r, h'⟩) =>
      match readLevel levels r with
      | none => none
      | some (b, ⟨r', h''⟩) =>
        match readChain signs levels (.binary operator a b) r' with
        | some (e, r'') => some (e, .below h (.below h' (.inside h'' r'')))
        | none => none
termination_by (s.length, levels.length + 11)
decreasing_by
  · exact lex_of_le (by omega) (by omega)
  · exact Prod.Lex.left _ _ (by omega)

/-- A union with signs in front of it. -/
def readUnary (sign : Option Bool) (s : Text) : Option (Expr × Shorter s) :=
  match next? '-' s with
  | some ⟨r, h⟩ =>
    match readUnary (some (!sign.getD false)) r with
    | some (e, r') => some (e, .inside h r')
    | none => none
  | none =>
    match readUnion s with
    | some (e, r) => some (signed sign e, r)
    | none => none
termination_by (s.length, 9)

/-- A path and the paths that bars join to it. -/
def readUnion (s : Text) : Option (Expr × Shorter s) :=
  match readPath s with
  | none => none
  | some (a, ⟨r, h⟩) =>
    match readBranches a r with
    | some (e, r') => some (e, .inside h r')
    | none => none
termination_by (s.length, 8)

/-- The bars behind a path and the paths behind them. -/
def readBranches (a : Expr) (s : Text) : Option (Expr × NoLonger s) :=
  match next? '|' s with
  | none => some (a, skip s)
  | some ⟨r, h⟩ =>
    match readPath r with
    | none => none
    | some (b, ⟨r', h'⟩) =>
      match readBranches (.binary .union a b) r' with
      | some (e, r'') => some (e, .inside h (.inside h' r''))
      | none => none
termination_by (s.length, 8)

/-- A location path, or a primary expression with predicates and steps behind it. -/
def readPath (s : Text) : Option (Expr × Shorter s) :=
  match skip s with
  | ⟨t, h⟩ =>
    match beginsWithPrimary? t with
    | none => none
    | some true =>
      match readPrimary t with
      | none => none
      | some (e, ⟨r, h'⟩) =>
        match readFilters e r with
        | none => none
        | some (e, ⟨r', h''⟩) =>
          match readSlashes e r' with
          | some (e, r'') => some (e, .below h (.inside h' (.below h'' r'')))
          | none => none
    | some false =>
      match Text.take? '/' t with
      | some ⟨r, h'⟩ =>
        match readAfterSlash .root r with
        | some (e, r') => some (e, .below h (.inside h' r'))
        | none => none
      | none =>
        match readRelative .here t with
        | some (e, r) => some (e, .below h r)
        | none => none
termination_by (s.length, 7)
decreasing_by
  · exact lex_of_le (by omega) (by omega)
  · exact Prod.Lex.left _ _ (by omega)
  · exact Prod.Lex.left _ _ (by omega)
  · exact Prod.Lex.left _ _ (by omega)
  · exact lex_of_le (by omega) (by omega)

/-- The path behind a set: one slash or two, and steps. -/
def readSlashes (set : Expr) (s : Text) : Option (Expr × NoLonger s) :=
  match Text.take? '/' s with
  | none => some (set, .all s)
  | some ⟨r, h⟩ =>
    match Text.take? '/' r with
    | some ⟨r', h'⟩ =>
      match readRelative (descend set) r' with
      | some (e, r'') => some (e, .inside h (.inside h' r''))
      | none => none
    | none =>
      match readStep set r with
      | none => none
      | some (e, ⟨r', h'⟩) =>
        match readSteps e r' with
        | some (e, r'') => some (e, .inside h (.inside h' r''))
        | none => none
termination_by (s.length, 6)

/-- What stands behind a slash that begins a path. -/
def readAfterSlash (start : Expr) (s : Text) : Option (Expr × NoLonger s) :=
  match Text.take? '/' s with
  | some ⟨r, h⟩ =>
    match readRelative (descend start) r with
    | none => none
    | some (e, ⟨r', h'⟩) =>
      match readMoreSlashes e r' with
      | some (e, r'') => some (e, .inside h (.inside h' r''))
      | none => none
  | none =>
    match skip s with
    | ⟨t, h⟩ =>
      if mayFollowRoot t then
        match readRelative start t with
        | none => none
        | some (e, ⟨r', h'⟩) =>
          match readMoreSlashes e r' with
          | some (e, r'') => some (e, .below h (.inside h' r''))
          | none => none
      else
        match readMoreSlashes start t with
        | some (e, r) => some (e, .below h r)
        | none => none
termination_by (s.length, 6)
decreasing_by
  · exact Prod.Lex.left _ _ (by omega)
  · exact Prod.Lex.left _ _ (by omega)
  · exact lex_of_le (by omega) (by omega)
  · exact Prod.Lex.left _ _ (by omega)
  · exact lex_of_le (by omega) (by omega)

/-- Further slashes behind those that begin a path. -/
def readMoreSlashes (start : Expr) (s : Text) : Option (Expr × NoLonger s) :=
  match Text.take? '/' s with
  | none => some (start, .all s)
  | some ⟨r, h⟩ =>
    match readAfterSlash start r with
    | some (e, r') => some (e, .inside h r')
    | none => none
termination_by (s.length, 5)

/-- The steps of a path; one or two slashes may stand in front of the first. -/
def readRelative (start : Expr) (s : Text) : Option (Expr × Shorter s) :=
  match next? '/' s with
  | none =>
    match readStep start s with
    | none => none
    | some (e, ⟨r, h⟩) =>
      match readSteps e r with
      | some (e, r') => some (e, .inside h r')
      | none => none
  | some ⟨r, h⟩ =>
    match readStepAfterSlash start r with
    | none => none
    | some (e, ⟨r', h'⟩) =>
      match readSteps e r' with
      | some (e, r'') => some (e, .inside h (.inside h' r''))
      | none => none
termination_by (s.length, 5)

/-- The slashes and steps behind a step. -/
def readSteps (start : Expr) (s : Text) : Option (Expr × NoLonger s) :=
  match next? '/' s with
  | none => some (start, skip s)
  | some ⟨r, h⟩ =>
    match readStepAfterSlash start r with
    | none => none
    | some (e, ⟨r', h'⟩) =>
      match readSteps e r' with
      | some (e, r'') => some (e, .inside h (.inside h' r''))
      | none => none
termination_by (s.length, 5)

/-- A step behind a slash, or behind the second of two, which go down any number of levels. -/
def readStepAfterSlash (start : Expr) (s : Text) : Option (Expr × Shorter s) :=
  match Text.take? '/' s with
  | some ⟨r, h⟩ =>
    match readStep (descend start) r with
    | some (e, r') => some (e, .inside h r')
    | none => none
  | none => readStep start s
termination_by (s.length, 4)

/-- One step with its predicates. -/
def readStep (start : Expr) (s : Text) : Option (Expr × Shorter s) :=
  match next? '.' s with
  | some ⟨r, h⟩ =>
    match Text.take? '.' r with
    | some r' => some (.step start .parent .node [], .inside h r')
    | none => some (start, ⟨r, h⟩)
  | none =>
    match skip s with
    | ⟨t, h⟩ =>
      match readAxisTest? t with
      | none => none
      | some (axis, test, ⟨r, h'⟩) =>
        match readPredicates r with
        | some (predicates, r') =>
          some (.step start axis test predicates, .below h (.inside h' r'))
        | none => none
termination_by (s.length, 3)

def readPredicates (s : Text) : Option (List Expr × NoLonger s) :=
  match next? '[' s with
  | none => some ([], skip s)
  | some ⟨r, h⟩ =>
    match readLevel levels r with
    | none => none
    | some (e, ⟨r', h'⟩) =>
      match Text.take? ']' r' with
      | none => none
      | some ⟨r'', h''⟩ =>
        match readPredicates r'' with
        | some (es, t) => some (e :: es, .inside h (.inside h' (.inside h'' t)))
        | none => none
termination_by (s.length, 2)

def readFilters (set : Expr) (s : Text) : Option (Expr × NoLonger s) :=
  match next? '[' s with
  | none => some (set, skip s)
  | some ⟨r, h⟩ =>
    match readLevel levels r with
    | none => none
    | some (e, ⟨r', h'⟩) =>
      match Text.take? ']' r' with
      | none => none
      | some ⟨r'', h''⟩ =>
        match readFilters (.filter set e) r'' with
        | some (e, t) => some (e, .inside h (.inside h' (.inside h'' t)))
        | none => none
termination_by (s.length, 2)

/-- A variable, an expression in parentheses, a number, a text or a function. -/
def readPrimary (s : Text) : Option (Expr × Shorter s) :=
  match Text.take? '$' s with
  | some ⟨r, h⟩ =>
    match skip r with
    | ⟨t, h'⟩ =>
      match readQName? t with
      | some (n, r') => some (.variable n, .inside h (.below h' r'))
      | none => none
  | none =>
    match Text.take? '(' s with
    | some ⟨r, h⟩ =>
      match readLevel levels r with
      | none => none
      | some (e, ⟨r', h'⟩) =>
        match Text.take? ')' r' with
        | some r'' => some (e, .inside h (.inside h' r''))
        | none => none
    | none =>
      match readLiteral? s with
      | some (t, r) => some (.literal t, r)
      | none =>
        match readNumber? s with
        | some (n, r) => some (.number n, r)
        | none =>
          match readQName? s with
          | none => none
          | some (n, ⟨r, h⟩) =>
            match next? '(' r with
            | none => none
            | some ⟨r', h'⟩ =>
              match readArguments r' with
              | some (es, r'') => some (.call n es, .inside h (.inside h' r''))
              | none => none
termination_by (s.length, 1)

/-- The arguments of a function and the parenthesis behind them. -/
def readArguments (s : Text) : Option (List Expr × Shorter s) :=
  match next? ')' s with
  | some r => some ([], r)
  | none => readFurther s
termination_by (s.length, 30)

/-- The arguments of a function from one that must be there on. -/
def readFurther (s : Text) : Option (List Expr × Shorter s) :=
  match readLevel levels s with
  | none => none
  | some (e, ⟨r, h⟩) =>
    match Text.take? ')' r with
    | some r' => some ([e], .inside h r')
    | none =>
      match Text.take? ',' r with
      | none => none
      | some ⟨r', h'⟩ =>
        match readFurther r' with
        | some (es, r'') => some (e :: es, .inside h (.inside h' r''))
        | none => none
termination_by (s.length, 20)
decreasing_by
  · exact Prod.Lex.right _ (by rw [length_levels]; omega)
  · exact Prod.Lex.left _ _ (by omega)

end

/-- The expression that a text is. -/
def ofText? (s : Text) : Option Expr :=
  match readLevel levels s with
  | some (e, ⟨r, _⟩) => if r.isEmpty then some e else none
  | none => none

end Expr

end TreeQuery.XPath
