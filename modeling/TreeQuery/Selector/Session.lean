import TreeQuery.Selector.Compiler

/-!
# Sessions

Several compilers at work with several caches. Each compiler has its own settings and uses one of
the caches, which other compilers may use too. A session goes through steps: a compiler compiles a
selector, or a cache is looked at, filled or emptied.

Main statement: `run_append`, a session can be run in parts.
-/

namespace TreeQuery

structure Compiler where
  settings : Settings := {}
  /-- The number of the cache that the compiler uses. -/
  cache : Nat := 0
  deriving DecidableEq, Repr

/-- Compilers and the caches that they share. -/
structure Session where
  compilers : List Compiler := [{}]
  caches : List Cache := [.empty]
  deriving DecidableEq, Repr

/-- What is done in a session; caches and compilers are named by their numbers. -/
inductive Step where
  | compile (compiler : Nat) (selector : Text)
  | lookUp (cache : Nat) (selector : Text)
  | enter (cache : Nat) (selector xpath : Text)
  | clear (cache : Nat)
  | ask (cache : Nat) (selector : Text)
  | display (cache : Nat)
  deriving DecidableEq, Repr

inductive Reply where
  | compiled (outcome : Except SelectorError Text)
  | found (xpath : Option Text)
  | done
  | answered (known : Bool)
  | displayed (shown : Text)

namespace Session

def cache (s : Session) (i : Nat) : Cache := s.caches.getD i .empty

def setCache (s : Session) (i : Nat) (c : Cache) : Session := { s with caches := s.caches.set i c }

/-- Compile a selector with one of the compilers. -/
def compile (s : Session) (i : Nat) (selector : Text) : Except SelectorError Text × Session :=
  let compiler := s.compilers.getD i {}
  let (outcome, memory) :=
    (Selector.compile compiler.settings selector).run.run { cache := s.cache compiler.cache }
  (outcome, s.setCache compiler.cache memory.cache)

def step (s : Session) : Step → Reply × Session
  | .compile i selector =>
    let (outcome, s) := s.compile i selector
    (.compiled outcome, s)
  | .lookUp i selector => (.found ((s.cache i).get? selector), s)
  | .enter i selector xpath => (.done, s.setCache i ((s.cache i).insert selector xpath))
  | .clear i => (.done, s.setCache i .empty)
  | .ask i selector => (.answered ((s.cache i).contains selector), s)
  | .display i => (.displayed (s.cache i).display, s)

/-- The replies to some steps, each with the session behind the step. -/
def run (s : Session) : List Step → List (Reply × Session)
  | [] => []
  | a :: r =>
    let (reply, s) := s.step a
    (reply, s) :: s.run r

/-- The session behind some steps. -/
def final (s : Session) (steps : List Step) : Session :=
  steps.foldl (fun s a => (s.step a).2) s

/-- A session can be run in parts, the later steps with what the earlier ones leave. -/
theorem run_append (s : Session) (a b : List Step) :
    s.run (a ++ b) = s.run a ++ (s.final a).run b := by
  induction a generalizing s with
  | nil => rfl
  | cons c r ih => simp [run, final, ih]

end Session

end TreeQuery
