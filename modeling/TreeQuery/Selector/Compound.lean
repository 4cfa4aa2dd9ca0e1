import TreeQuery.Text.Quoted

/-!
# Compounds

A compound is the part of a selector that one element is tested against: a tag, tests of its
attributes and pseudo-classes. In a chain it also says how its element is related to that of the
compound before it.
-/

namespace TreeQuery

/-! ## Relations

Three relations have a sign. A compound whose relation has none is looked for anywhere below the
compound before it. That a relation may also be given as empty text only matters where compounds are
put together by hand: no token is empty. -/

/-- The relations that have a sign of their own. -/
inductive Combinator where
  /-- The element is a child: `>`. -/
  | child
  /-- The element is a later sibling: `~`. -/
  | sibling
  /-- The element is the next sibling: `+`. -/
  | adjacent
  deriving DecidableEq, Repr

namespace Combinator

def symbol : Combinator → Char
  | child => '>'
  | sibling => '~'
  | adjacent => '+'

def ofToken? : Text → Option Combinator
  | ['>'] => some child
  | ['~'] => some sibling
  | ['+'] => some adjacent
  | _ => none

/-- The sign of a combinator is a token for it. -/
theorem ofToken?_symbol (c : Combinator) : ofToken? [c.symbol] = some c := by
  cases c <;> rfl

/-- A token is a combinator only as its sign. -/
theorem ofToken?_eq_some_iff {t : Text} {c : Combinator} :
    ofToken? t = some c ↔ t = [c.symbol] := by
  constructor
  · intro h
    unfold ofToken? at h
    split at h <;> simp at h <;> subst h <;> rfl
  · rintro rfl; exact ofToken?_symbol c

end Combinator

/-- How a compound is related to the one before it. -/
inductive Relation where
  /-- Nothing is said; the element is a descendant. -/
  | unstated
  /-- The relation is given, as empty text; the element is a descendant. -/
  | blank
  /-- The relation is given by a combinator. -/
  | stated (combinator : Combinator)
  deriving DecidableEq, Repr

namespace Relation

def text? : Relation → Option Text
  | unstated => none
  | blank => some []
  | stated c => some [c.symbol]

/-- The relation that a text stands for. -/
def ofText? : Option Text → Option Relation
  | none => some unstated
  | some [] => some blank
  | some t => (Combinator.ofToken? t).map stated

end Relation

/-! ## Compounds -/

/-- One compound of a chain. The tests and pseudo-classes are fragments in the order in which they
are written, such as `href^='x'` and `not(.a, .b)`. -/
structure Compound where
  /-- The name of the element; empty where any will do. -/
  tag : Text := []
  relation : Relation := .unstated
  attributes : List Text := []
  pseudos : List Text := []
  deriving DecidableEq, Repr

namespace Compound

/-- The compound as it is shown: the parts that are empty are left out. -/
def display (c : Compound) : Text :=
  "Segment(".toList ++ Text.quote c.tag
    ++ (match c.relation with
      | .stated r => ", relation=".toList ++ Text.quote [r.symbol]
      | _ => [])
    ++ (if c.attributes.isEmpty then [] else ", attrs=".toList ++ Text.quoteList c.attributes)
    ++ (if c.pseudos.isEmpty then [] else ", pseudos=".toList ++ Text.quoteList c.pseudos)
    ++ [')']

end Compound

end TreeQuery
