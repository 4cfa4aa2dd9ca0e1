import TreeQuery.Selector.Error

/-!
# Compilations

What a compilation works with besides the selector: a cache of finished selectors, which may outlive
it and be shared, and a record of the notable events. A compilation that fails keeps what it has
cached on the way.

Main statements: `Cache.get?_insert_self`, `Cache.get?_insert_of_get?` (the first value stays) and
`Cache.get?_insert_of_ne`.
-/

namespace TreeQuery

/-- The finished selectors with their expressions. -/
structure Cache where
  entries : List (Text × Text) := []
  deriving DecidableEq, Repr

namespace Cache

def empty : Cache := {}

def get? (c : Cache) (selector : Text) : Option Text := c.entries.lookup selector

def contains (c : Cache) (selector : Text) : Bool := (c.get? selector).isSome

/-- Enter the expression of a selector, unless one is there. -/
def insert (c : Cache) (selector xpath : Text) : Cache :=
  if c.contains selector then c else ⟨(selector, xpath) :: c.entries⟩

def size (c : Cache) : Nat := c.entries.length

def display (c : Cache) : Text :=
  "XPathCache(".toList ++ Nat.toDigits 10 c.size ++ " entries)".toList

/-! ### What is entered

A cache is asked for one selector at a time, so that these three facts are all that is ever needed
of entering: the selector is known then, nothing that was known is forgotten or changed, and no
other selector is touched. -/

/-- The first value of a selector stays. -/
theorem get?_insert_of_get? {c : Cache} {s v : Text} (h : c.get? s = some v) (x : Text) :
    c.insert s x = c := by
  simp [insert, contains, h]

/-- A selector that was not known is known when it has been entered. -/
theorem get?_insert_self {c : Cache} {s : Text} (h : c.get? s = none) (x : Text) :
    (c.insert s x).get? s = some x := by
  have hc : c.contains s = false := by simp [contains, h]
  simp [insert, hc, get?]

/-- Entering one selector leaves the others as they are. -/
theorem get?_insert_of_ne {c : Cache} {s t : Text} (h : t ≠ s) (x : Text) :
    (c.insert s x).get? t = c.get? t := by
  unfold insert
  split
  · rfl
  · simp [get?, List.lookup_cons, beq_false_of_ne h]

end Cache

/-- Something worth recording. -/
inductive Event where
  /-- A selector was looked for in the cache and not found. -/
  | missed (selector : Text)
  /-- A selector was compiled. -/
  | compiled (selector xpath : Text)
  /-- An expression is about to be evaluated. -/
  | evaluating (expression : Text)
  deriving DecidableEq, Repr

/-- What passes from one compilation to the next. -/
structure Memory where
  cache : Cache := {}
  /-- The events so far, latest first. -/
  events : List Event := []
  deriving DecidableEq, Repr

/-- A computation that may find a selector at fault, and that uses the memory. -/
abbrev Compilation (α : Type) : Type := ExceptT SelectorError (StateM Memory) α

namespace Compilation

/-- Give up. -/
def fail {α : Type} (e : SelectorError) : Compilation α := throw e

/-- Go on with a result, or give up with its fault. -/
def ofExcept {α : Type} : Except SelectorError α → Compilation α
  | .ok a => pure a
  | .error e => fail e

def record (e : Event) : Compilation Unit :=
  modify fun m => { m with events := e :: m.events }

def cached? (selector : Text) : Compilation (Option Text) := do
  return (← get).cache.get? selector

def remember (selector xpath : Text) : Compilation Unit :=
  modify fun m => { m with cache := m.cache.insert selector xpath }

end Compilation

end TreeQuery
