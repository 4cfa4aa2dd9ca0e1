import TreeQuery.Text.Case
import TreeQuery.Selector.Error

/-!
# Attribute tests

What stands between brackets in a selector: the name of an attribute, alone or with an operator and
a value, such as `href^='x'`. The value may be quoted in any way or not at all; it holds no quotes
itself, so that it can stand between apostrophes in the predicate.

Main statement: `readValue?_of_noQuote`, a value without quotes is read as it stands.
-/

namespace TreeQuery

/-- How an attribute is compared with a value. -/
inductive AttributeOperator where
  /-- The value itself: `=`. -/
  | equals
  /-- Another value: `!=`. -/
  | differs
  /-- One of the words of a list: `~=`. -/
  | word
  /-- A part: `*=`. -/
  | part
  /-- The beginning: `^=`. -/
  | beginning
  /-- The end: `$=`. -/
  | ending
  /-- The value, or the value and a dash at the beginning: `|=`. -/
  | dashed
  deriving DecidableEq, Repr

namespace AttributeOperator

def symbol? : AttributeOperator → Option Char
  | equals => none
  | differs => some '!'
  | word => some '~'
  | part => some '*'
  | beginning => some '^'
  | ending => some '$'
  | dashed => some '|'

def ofSymbol? : Char → Option AttributeOperator
  | '!' => some differs
  | '~' => some word
  | '*' => some part
  | '^' => some beginning
  | '$' => some ending
  | '|' => some dashed
  | _ => none

/-- Whether nothing matches an empty value. -/
def failsOnEmpty : AttributeOperator → Bool
  | word | part | beginning | ending => true
  | equals | differs | dashed => false

end AttributeOperator

/-- A test of one attribute: that it is there, or how it compares with a value. -/
structure AttributeTest where
  /-- The name in small letters. -/
  name : Text
  comparison : Option (AttributeOperator × Text)
  deriving DecidableEq, Repr

namespace AttributeTest

/-! ### Reading a test

A test is read from its front: the name is as long as it can be, the operator follows at once, and
the rest is the value with quotes around it. The quotes need not match, nor be of one kind; what
matters is that none is inside the value. -/

/-- A character that a name may begin with: an ASCII letter, a digit or an underscore. The dotted
capital I, the dotless i, the long s and the kelvin sign count as forms of ASCII letters. -/
def isNameStart (c : Char) : Bool :=
  c.isAlphanum || c = '_' || c = '\u0130' || c = '\u0131' || c = '\u017F' || c = '\u212A'

def isNamePart (c : Char) : Bool := isNameStart c || c = '-'

def isQuote (c : Char) : Bool := c = '\'' || c = '"'

/-- A name at the beginning of a text, and what follows it. -/
def splitName? : Text → Option (Text × Text)
  | [] => none
  | c :: r => if isNameStart c then some (c :: r.takeWhile isNamePart, r.dropWhile isNamePart)
    else none

/-- An operator at the beginning of a text, and what follows it. -/
def splitOperator? : Text → Option (AttributeOperator × Text)
  | '=' :: r => some (.equals, r)
  | c :: '=' :: r => (AttributeOperator.ofSymbol? c).map (·, r)
  | _ => none

/-- A value with any quotes around it. Where a quote ends the value, a line feed may follow. -/
def readValue? (s : Text) : Option Text :=
  let s := s.dropWhile isQuote
  let value := s.takeWhile (!isQuote ·)
  let rest := (s.dropWhile (!isQuote ·)).dropWhile isQuote
  if rest = [] || rest = ['\n'] then some value else none

def ofFragment? (fragment : Text) : Option AttributeTest :=
  match splitName? fragment with
  | none => none
  | some (name, rest) =>
    match splitOperator? rest with
    | some (operator, rest) =>
      (readValue? rest).map fun value => ⟨Text.lower name, some (operator, value)⟩
    | none => if rest.all isQuote then some ⟨Text.lower name, none⟩ else none

/-! ### Writing a predicate

The predicate is the same for every value but the empty one, which is a part, a beginning, a word
and an end of every text; there the test fails by itself. The ending is cut off by counting back
from the length of the attribute. -/

def literal (s : Text) : Text := '\'' :: s ++ ['\'']

/-- The predicate that holds of the elements that pass a test. -/
def predicate (t : AttributeTest) : Text :=
  let subject := '@' :: t.name
  match t.comparison with
  | none => "[".toList ++ subject ++ "]".toList
  | some (operator, value) =>
    if operator.failsOnEmpty && value.isEmpty then "[false()]".toList
    else match operator with
    | .equals => "[".toList ++ subject ++ "=".toList ++ literal value ++ "]".toList
    | .differs => "[".toList ++ subject ++ "!=".toList ++ literal value ++ "]".toList
    | .word =>
      "[contains(concat(' ', normalize-space(".toList ++ subject ++ "), ' '), ".toList
        ++ literal (' ' :: value ++ [' ']) ++ ")]".toList
    | .part => "[contains(".toList ++ subject ++ ", ".toList ++ literal value ++ ")]".toList
    | .beginning =>
      "[starts-with(".toList ++ subject ++ ", ".toList ++ literal value ++ ")]".toList
    | .ending =>
      "[".toList ++ subject ++ " and substring(".toList ++ subject ++ ", string-length(".toList
        ++ subject ++ ")-".toList ++ Nat.toDigits 10 (value.length - 1) ++ ") = ".toList
        ++ literal value ++ "]".toList
    | .dashed =>
      "[".toList ++ subject ++ "=".toList ++ literal value ++ " or starts-with(".toList
        ++ subject ++ ", ".toList ++ literal (value ++ ['-']) ++ ")]".toList

/-- A value without quotes is read as it stands. -/
theorem readValue?_of_noQuote {v : Text} (h : ∀ c ∈ v, isQuote c = false) :
    readValue? v = some v := by
  have hd : v.dropWhile isQuote = v := by
    cases v with
    | nil => rfl
    | cons c r => simp [h c (by simp)]
  have hs : v.takeWhile (!isQuote ·) = v ∧ v.dropWhile (!isQuote ·) = [] := by
    clear hd
    induction v with
    | nil => exact ⟨rfl, rfl⟩
    | cons c r ih =>
      have hr := ih fun d hd => h d (by simp [hd])
      simp [h c (by simp), hr]
  simp [readValue?, hd, hs]

end AttributeTest

/-- The predicate for the inside of brackets. -/
def attributePredicate (fragment : Text) : Except SelectorError Text :=
  match AttributeTest.ofFragment? fragment with
  | some t => .ok t.predicate
  | none => .error (.malformedAttribute fragment)

end TreeQuery
