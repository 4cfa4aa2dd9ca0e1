import TreeQuery.Text.Basic

/-!
# Splitting at the top level

A selector is split twice: into groups at commas and into tokens at white space. Both times a
character separates only at the top level, where the parentheses opened before it do not outnumber
those closed before it, and only if no backslash takes it literally.

Main statement: `Pieces.join_cut`, the pieces with their separators between them are the selector.
-/

namespace TreeQuery

/-- The pieces between separators, each but the last with the separator that ends it. -/
structure Pieces where
  /-- The ended pieces, each with its separator. -/
  ended : List (Text × Char)
  /-- What follows the last separator. -/
  last : Text
  deriving DecidableEq, Repr

/-- A character that neither escapes another one nor ends the text as a backslash is none. -/
theorem ne_backslash_of_rest {c : Char} {r : Text} (h1 : c = '\\' → r = [] → False)
    (h2 : ∀ (d : Char) (u : Text), c = '\\' → r = d :: u → False) : c ≠ '\\' := by
  intro hc
  cases r with
  | nil => exact h1 hc rfl
  | cons d u => exact h2 d u hc rfl

namespace Pieces

/-! ### Cutting

A text is cut from its front, and the pieces of the rest are known when a character is put in front
of them. A character that does not separate lengthens the first piece, one that does puts an empty
piece in front. Every fact about cutting is an induction with these two cases. -/

def extend (front : Text) : Pieces → Pieces
  | ⟨[], l⟩ => ⟨[], front ++ l⟩
  | ⟨(p, s) :: r, l⟩ => ⟨(front ++ p, s) :: r, l⟩

def separate (s : Char) (p : Pieces) : Pieces := ⟨([], s) :: p.ended, p.last⟩

def toList (p : Pieces) : List Text := p.ended.map (·.1) ++ [p.last]

/-- The text that the pieces come from. -/
def join (p : Pieces) : Text := p.ended.flatMap (fun (t, s) => t ++ [s]) ++ p.last

/-- Cut a text at its top-level separators. The depth is the number of parentheses opened so far
less the number closed; it may be negative. -/
def cut (separates : Char → Bool) (depth : Int) : Text → Pieces
  | [] => ⟨[], []⟩
  | ['\\'] => ⟨[], ['\\']⟩
  | '\\' :: c :: r => (cut separates depth r).extend ['\\', c]
  | '(' :: r => (cut separates (depth + 1) r).extend ['(']
  | ')' :: r => (cut separates (depth - 1) r).extend [')']
  | c :: r =>
    if depth ≤ 0 && separates c then (cut separates depth r).separate c
    else (cut separates depth r).extend [c]

/-- A character that means nothing to the count of parentheses separates or does not. -/
theorem cut_cons {separates : Char → Bool} {c : Char} (h1 : c ≠ '\\') (h2 : c ≠ '(') (h3 : c ≠ ')')
    (depth : Int) (s : Text) : cut separates depth (c :: s) =
      if depth ≤ 0 && separates c then (cut separates depth s).separate c
      else (cut separates depth s).extend [c] :=
  cut.eq_6 _ _ _ _ (fun e => absurd e h1) (fun _ _ e => absurd e h1) h2 h3

/-! ### Nothing is lost -/

/-- Characters in front of the first piece stand in front of the text. -/
theorem join_extend (front : Text) (p : Pieces) : (p.extend front).join = front ++ p.join := by
  obtain ⟨e, l⟩ := p
  cases e <;> simp [extend, join]

/-- A piece in front, which is empty, leaves its separator in front of the text. -/
theorem join_separate (s : Char) (p : Pieces) : (p.separate s).join = s :: p.join := by
  simp [separate, join]

/-- Nothing is lost by cutting. -/
theorem join_cut (separates : Char → Bool) (depth : Int) (s : Text) :
    (cut separates depth s).join = s := by
  -- The depth decides where the text is cut, but not what it is made of.
  fun_induction cut separates depth s with
  | case1 => rfl
  | case2 => rfl
  | _ => simp_all [join_extend, join_separate]

end Pieces

namespace Selector

/-- White space that separates the compounds of a selector. -/
def isSeparator (c : Char) : Bool :=
  c = ' ' || c = '\t' || c = '\n' || c = '\r' || c = '\x0c'

/-- The alternatives of a selector, trimmed. -/
def alternatives (selector : Text) : List Text :=
  (Pieces.cut (· == ',') 0 selector).toList.map Text.trim

/-- The tokens of an alternative: its compounds, and the combinators that stand alone. -/
def tokens (selector : Text) : List Text :=
  (Pieces.cut isSeparator 0 selector).toList.filter (!·.isEmpty)

end Selector

end TreeQuery
