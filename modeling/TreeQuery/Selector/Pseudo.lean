import TreeQuery.Text.Case

/-!
# Pseudo-classes

Three pseudo-classes take an argument, `not`, `contains` and `has`; thirteen stand alone, each with
a predicate of its own. Two of those, `first` and `last`, select from everything matched so far and
not among the children of one parent.

Main statement: `StaticPseudo.ofName?_name`, each of the thirteen is found by its name.
-/

namespace TreeQuery

inductive FunctionalPseudo where
  | not
  | contains
  | has
  deriving DecidableEq, Repr

namespace FunctionalPseudo

def name : FunctionalPseudo → Text
  | not => "not".toList
  | contains => "contains".toList
  | has => "has".toList

/-- The pseudo-class of a name in small letters. -/
def ofName? (n : Text) : Option FunctionalPseudo :=
  if n = not.name then some not
  else if n = contains.name then some contains
  else if n = has.name then some has
  else none

theorem ofName?_name (p : FunctionalPseudo) : ofName? p.name = some p := by cases p <;> rfl

theorem name_of_ofName? {n : Text} {p : FunctionalPseudo} (h : ofName? n = some p) : n = p.name := by
  unfold ofName? at h
  split at h
  · next hn => cases h; exact hn
  · split at h
    · next hn => cases h; exact hn
    · split at h
      · next hn => cases h; exact hn
      · cases h

/-! ### Fragments

A compound keeps a pseudo-class with an argument as a fragment, the name and the argument in
parentheses, and the fragment is read again when the compound is compiled. The name is compared
letter by letter with case set aside, which takes four characters beyond ASCII for letters as well.
Reading is therefore not the inverse of writing for all names; for the three that there are it is.
-/

/-- Whether a character is a given small letter when case is set aside. The dotless i, the dotted
capital I and the long s count as forms of their letters. -/
def matchesLetter (letter c : Char) : Bool :=
  c.toLower = letter || (letter = 'i' && (c = '\u0130' || c = '\u0131'))
    || (letter = 's' && c = '\u017F')

/-- The beginning of a text that matches a word when case is set aside, and what follows it. -/
def splitWord? : Text → Text → Option (Text × Text)
  | [], s => some ([], s)
  | _ :: _, [] => none
  | l :: w, c :: s =>
    if matchesLetter l c then (splitWord? w s).map fun (a, b) => (c :: a, b) else none

/-- The nonempty argument between an opening parenthesis and the closing one that ends the text; a
line feed may follow. -/
def argument? : Text → Option Text
  | '(' :: s =>
    match s.reverse with
    | ')' :: c :: r => some (c :: r).reverse
    | '\n' :: ')' :: c :: r => some (c :: r).reverse
    | _ => none
  | _ => none

/-- A fragment that begins with a word and goes on with an argument. -/
def split? (word fragment : Text) : Option (Text × Text) :=
  match splitWord? word fragment with
  | some (w, r) => (argument? r).map fun a => (w, a)
  | none => none

/-- The pseudo-class and argument of a fragment. A name that is one of the three only when its
special letters are taken for plain ones is the last of them. -/
def ofFragment? (fragment : Text) : Option (FunctionalPseudo × Text) :=
  match split? not.name fragment <|> split? contains.name fragment <|> split? has.name fragment with
  | some (w, a) => some ((ofName? (Text.lower w)).getD has, a)
  | none => none

end FunctionalPseudo

inductive StaticPseudo where
  | disabled
  | firstChild
  | lastChild
  | onlyChild
  | empty
  | notEmpty
  | parent
  | header
  | odd
  | even
  | first
  | last
  | root
  deriving DecidableEq, Repr

namespace StaticPseudo

def all : List StaticPseudo :=
  [disabled, firstChild, lastChild, onlyChild, empty, notEmpty, parent, header, odd, even, first,
    last, root]

def name : StaticPseudo → Text
  | disabled => "disabled".toList
  | firstChild => "first-child".toList
  | lastChild => "last-child".toList
  | onlyChild => "only-child".toList
  | empty => "empty".toList
  | notEmpty => "not-empty".toList
  | parent => "parent".toList
  | header => "header".toList
  | odd => "odd".toList
  | even => "even".toList
  | first => "first".toList
  | last => "last".toList
  | root => "root".toList

def ofName? (n : Text) : Option StaticPseudo := all.find? (·.name == n)

/-- The predicate of a pseudo-class. Positions count from one, `odd` and `even` from zero. -/
def predicate : StaticPseudo → Text
  | disabled => "[@disabled]".toList
  | firstChild => "[not(preceding-sibling::*)]".toList
  | lastChild => "[not(following-sibling::*)]".toList
  | onlyChild => "[not(preceding-sibling::*) and not(following-sibling::*)]".toList
  | empty => "[count(*) = 0 and string-length() = 0]".toList
  | notEmpty => "[count(*) > 0 or string-length() > 0]".toList
  | parent => "[count(*) > 0]".toList
  | header =>
    "[self::h1 or self::h2 or self::h3 or self::h4 or self::h5 or self::h6]".toList
  | odd => "[position() mod 2 = 0]".toList
  | even => "[position() mod 2 = 1]".toList
  | first => "[1]".toList
  | last => "[last()]".toList
  | root => "[not(parent::*)]".toList

/-- Whether the pseudo-class selects from the whole result. -/
def isResultScoped : StaticPseudo → Bool
  | first | last => true
  | _ => false

theorem ofName?_name (p : StaticPseudo) : ofName? p.name = some p := by cases p <;> decide

end StaticPseudo

end TreeQuery
