import TreeQuery.Proofs.Pattern.Reading

/-!
# Written selectors

A selector as it is written, as a tree: alternatives, each a chain of compounds, each compound a tag
and a row of items in the order in which they stand. The parts carry the proofs that they can be
written at all; everything that would mean something else where it stands is written with a
backslash.

A written selector has a text and a pattern. The pattern forgets in which order the items of a
compound stand, except that conditions keep the order among themselves, and so do tests.
-/

namespace TreeQuery

namespace Written

/-! ## Parts of compounds

Each part is a text with proofs about its characters. A class, an identifier and a value are read as
values of attributes, in which quotes do not stand for themselves, so that they have none. White
space in names is left out as well: at the end of an alternative it would be trimmed off, even with
a backslash. Everything else can be written. -/

/-- A name that a class or an identifier can have: not empty, without quotes and white space. -/
structure Name where
  text : Text
  ne_nil : text ≠ []
  noQuote : ∀ c ∈ text, AttributeTest.isQuote c = false
  noBlank : ∀ c ∈ text, Text.isBlank c = false

/-- A tag: any text but the empty one, without white space. -/
structure TagName where
  text : Text
  ne_nil : text ≠ []
  noBlank : ∀ c ∈ text, Text.isBlank c = false

/-- Whether an ASCII character can stand in the name of an attribute. -/
def isAttributeChar (c : Char) : Bool := c.isAlphanum || c = '_' || c = '-'

theorem eq_false_of_all {p : Char → Bool} {t : Text} (h : t.all (!p ·) = true) :
    ∀ c ∈ t, p c = false := by
  simpa using h

/-- The name of an attribute: ASCII letters, digits, underscores and hyphens, but no hyphen in
front. -/
structure AttributeName where
  text : Text
  ne_nil : text ≠ []
  isPlain : ∀ c ∈ text, isAttributeChar c = true
  noHyphen : text.head? ≠ some '-'

/-- A value that an attribute is compared with: any text without quotes. -/
structure Value where
  text : Text
  noQuote : ∀ c ∈ text, AttributeTest.isQuote c = false

/-- A text that an element is to contain: any text but the empty one. -/
structure Passage where
  text : Text
  ne_nil : text ≠ []

inductive Tag where
  | any
  | named (name : TagName)

mutual

inductive Item where
  | className (name : Name)
  | identifier (name : Name)
  | attributeTest (name : AttributeName) (comparison : Option (AttributeOperator × Value))
  | static (p : StaticPseudo)
  | contains (passage : Passage)
  | not (first : Chain) (others : List Chain)
  | has (first : Chain) (others : List Chain)

inductive Compound where
  | tagged (tag : Tag) (items : List Item)
  | untagged (first : Item) (others : List Item)

inductive Chain where
  /-- The first compound, with or without a combinator in front. -/
  | start (opening : Option Combinator) (compound : Compound)
  /-- One compound more; without a combinator white space stands in front of it. -/
  | link (before : Chain) (combinator : Option Combinator) (compound : Compound)

end

end Written

/-- A written selector: its alternatives, of which there is at least one. -/
structure Written where
  first : Written.Chain
  others : List Written.Chain

namespace Written

/-! ## Spans

A character is written with a backslash wherever it could mean something, and also where it would
not: it makes no difference to what is read, and one rule is enough. -/

/-- Whether a character is written with a backslash in names, values and texts. -/
def isSpecial (c : Char) : Bool := !TreeQuery.Compound.isTagChar c || Text.isBlank c

def literal (t : Text) : List Span := t.map fun c => ⟨c, isSpecial c⟩

/-- The spans of characters that mean something where they stand. -/
def signs (t : Text) : List Span := t.map Span.plain

def Tag.spans : Tag → List Span
  | .any => signs ['*']
  | .named n => literal n.text

def operatorSigns (o : AttributeOperator) : Text := o.symbol?.toList ++ ['=']

def comparisonSpans : Option (AttributeOperator × Value) → List Span
  | none => []
  | some (o, v) => signs (operatorSigns o) ++ literal v.text

def combinatorTokens (c : Option Combinator) : List (List Span) :=
  c.toList.map fun c => signs [c.symbol]

def inRow (tokens : List (List Span)) : List Span := List.intercalate (signs [' ']) tokens

mutual

def Item.spans : Item → List Span
  | .className n => signs ['.'] ++ literal n.text
  | .identifier n => signs ['#'] ++ literal n.text
  | .attributeTest n c => signs ['['] ++ (literal n.text ++ comparisonSpans c) ++ signs [']']
  | .static p => signs (':' :: p.name)
  | .contains t => signs ":contains(".toList ++ literal t.text ++ signs [')']
  | .not c r => signs ":not(".toList ++ (inRow c.tokens ++ furtherSpans r) ++ signs [')']
  | .has c r => signs ":has(".toList ++ (inRow c.tokens ++ furtherSpans r) ++ signs [')']

def furtherSpans : List Chain → List Span
  | [] => []
  | c :: r => signs [',', ' '] ++ inRow c.tokens ++ furtherSpans r

def itemSpans : List Item → List Span
  | [] => []
  | i :: r => i.spans ++ itemSpans r

def Compound.spans : Compound → List Span
  | .tagged t r => t.spans ++ itemSpans r
  | .untagged i r => i.spans ++ itemSpans r

def Chain.tokens : Chain → List (List Span)
  | .start o c => combinatorTokens o ++ [c.spans]
  | .link b o c => b.tokens ++ combinatorTokens o ++ [c.spans]

end

def Chain.spans (c : Chain) : List Span := inRow c.tokens

def alternativeSpans (first : Chain) (others : List Chain) : List Span :=
  first.spans ++ furtherSpans others

def Chain.print (c : Chain) : Text := Span.source c.spans

/-! ## Patterns

The pattern is made by structural recursion on what is written and does not look at any text, so
that a theorem that relates the two says what the texts mean. -/

def Tag.text : Tag → Text
  | .any => ['*']
  | .named n => n.text

def Item.test? : Item → Option AttributeTest
  | .className n => some ⟨"class".toList, some (.word, n.text)⟩
  | .identifier n => some ⟨"id".toList, some (.equals, n.text)⟩
  | .attributeTest n c => some ⟨Text.lower n.text, c.map fun (o, v) => (o, v.text)⟩
  | _ => none

/-- Whether a chain is opened by a child sign. -/
def Chain.opensDirectly : Chain → Bool
  | .start o _ => o = some .child
  | .link b _ _ => b.opensDirectly

mutual

def Item.condition? : Item → Option Pattern.Condition
  | .static p => some (.static p)
  | .contains t => some (.contains t.text)
  | .not c r => some (.not (c.pattern :: chainPatterns r))
  | .has c r => some (.has (.mk c.opensDirectly c.pattern :: relativePatterns r))
  | _ => none

def chainPatterns : List Chain → List Pattern.Chain
  | [] => []
  | c :: r => c.pattern :: chainPatterns r

def relativePatterns : List Chain → List Pattern.Relative
  | [] => []
  | c :: r => .mk c.opensDirectly c.pattern :: relativePatterns r

def itemConditions : List Item → List Pattern.Condition
  | [] => []
  | i :: r => i.condition?.toList ++ itemConditions r

def Compound.pattern : Compound → Pattern.Element
  | .tagged t r => .mk t.text (r.filterMap Item.test?) (itemConditions r)
  | .untagged i r =>
    .mk [] ((i :: r).filterMap Item.test?) (i.condition?.toList ++ itemConditions r)

def Chain.pattern : Chain → Pattern.Chain
  | .start o c => .start o c.pattern
  | .link b o c => .link b.pattern o c.pattern

end

def print (w : Written) : Text := Span.source (alternativeSpans w.first w.others)

def pattern (w : Written) : Pattern := w.first.pattern :: chainPatterns w.others

end Written

end TreeQuery
