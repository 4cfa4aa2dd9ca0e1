import TreeQuery.CommandLine.Arguments
import TreeQuery.CommandLine.Help
import TreeQuery.Markup.Reference
import TreeQuery.NodeSet.Loading
import TreeQuery.NodeSet.Reading
import TreeQuery.NodeSet.Search

/-!
# A run of the program

A run is planned from the arguments alone. Either they settle it, or markup has to be read first,
and the rest follows from what is read. A run ends with an exit code, or with a fault that nobody
handles. -/

namespace TreeQuery.CommandLine

/-! ### Outcomes -/

/-- A fault that ends a run. -/
inductive Fault where
  | query (e : QueryError)
  | loading (e : LoadingError)
  | missingFile (name : Text)
  deriving DecidableEq, Repr

namespace Fault

def message : Fault → Text
  | query e => e.message
  | loading e => e.message
  | missingFile n => "[Errno 2] No such file or directory: ".toList ++ Text.quote n

end Fault

/-- How a run ends. -/
inductive Ending where
  | exit (code : Nat)
  | fault (f : Fault)
  deriving DecidableEq, Repr

/-- What comes of a run. -/
structure Outcome where
  stdout : Text := []
  stderr : Text := []
  ending : Ending
  deriving DecidableEq, Repr

/-- Where markup is read from. -/
inductive Source where
  | standardInput
  | file (name : Text)
  deriving DecidableEq, Repr

/-- What has to be done before a run can end. -/
inductive Plan where
  | settled (o : Outcome)
  | reading (source : Source) (options : Options)
  deriving DecidableEq, Repr

/-! ### Events

Events are kept latest first and turned into lines only if the log is wanted. What was recorded
before a fault is printed too. -/

def logLine : Event → Text
  | .missed s =>
    "DEBUG:domquery.compiler:Cache miss for ".toList ++ Text.quote s ++ ['\n']
  | .compiled s x =>
    "DEBUG:domquery.compiler:Compiled selector ".toList ++ Text.quote s ++ " to ".toList
      ++ Text.quote x ++ ['\n']
  | .evaluating e => "DEBUG:domquery.document:Evaluating ".toList ++ Text.quote e ++ ['\n']

/-- The log of a run, if it is wanted. -/
def log (o : Options) (m : Memory) : Text :=
  if o.verbose then m.events.reverse.flatMap logLine else []

/-! ### Planning

A plan is made without reading anything, so that the outer layer has one decision to make: print an
outcome, or read the source and go on. -/

/-- The components of a path, split at slashes. -/
def components : Text → List Text
  | [] => [[]]
  | c :: r =>
    if c = '/' then [] :: components r
    else match components r with
      | [] => [[c]]
      | w :: ws => (c :: w) :: ws

/-- The name of a file without empty components and components that stay where they are. -/
def plainName (n : Text) : Text :=
  let kept := (components n).filter fun w => !w.isEmpty && w != ['.']
  let slashes := n.takeWhile (· == '/')
  let start := if slashes.length = 2 then slashes else slashes.take 1
  match start ++ List.intercalate ['/'] kept with
  | [] => ['.']
  | s => s

/-- What a path names. -/
def Source.ofPath (p : Text) : Source :=
  if p = ['-'] then .standardInput else .file (plainName p)

def printXPath (o : Options) (selector : Text) : Outcome :=
  match (Selector.compile {} selector).run.run {} with
  | (.ok x, m) => { stdout := x ++ ['\n'], stderr := log o m, ending := .exit 0 }
  | (.error e, m) => { stderr := log o m ++ e.message ++ ['\n'], ending := .exit 2 }

/-- Plan a query. -/
def planQuery (o : Options) : Plan :=
  match o.xpath with
  | some s => .settled (printXPath o s)
  | none =>
    match o.path with
    | none | some [] => .settled { stderr := help, ending := .exit 1 }
    | some p => .reading (.ofPath p) o

def plan (arguments : List Text) : Plan :=
  match Request.ofArguments arguments with
  | .ok .help => .settled { stdout := help, ending := .exit 0 }
  | .ok .version => .settled { stdout := versionText, ending := .exit 0 }
  | .ok (.query o) => planQuery o
  | .error e => .settled {
      stderr := usage ++ programName ++ ": error: ".toList ++ e.message ++ ['\n']
      ending := .exit 2 }

/-! ### Querying

Only a fault of the selector is reported as an error of its own; every other fault ends the run as
it is. -/

/-- The nodes of a document that the options choose. -/
def choose (o : Options) (q : NodeSet) : Query NodeSet :=
  match o.selector with
  | none | some [] => pure q
  | some s => q.find s

/-- A node as it is printed. -/
def printed (f : Format) (q : NodeSet) : Text :=
  match f with
  | .html => q.markup
  | .text => Text.trim q.text

/-- What is printed of a set. -/
def output (o : Options) (q : NodeSet) : Text :=
  let q := if o.first then q.first else q
  List.intercalate ['\n'] (q.singles.map (printed o.format)) ++ ['\n']

/-- What comes of a query of markup. -/
def query (o : Options) (markup : Text) : Outcome :=
  match NodeSet.load markup none with
  | .error e => { ending := .fault (.loading e) }
  | .ok q =>
    match (choose o q).run.run {} with
    | (.error (.selector e), m) => { stderr := log o m ++ e.message ++ ['\n'], ending := .exit 2 }
    | (.error e, m) => { stderr := log o m, ending := .fault (.query e) }
    | (.ok q, m) =>
      if q.length = 0 then { stderr := log o m, ending := .exit 1 }
      else { stdout := output o q, stderr := log o m, ending := .exit 0 }

/-- What comes of a query of what a source holds, if there is such a source. The line ends of files
are unified. -/
def answer (source : Source) (o : Options) (content : Option Text) : Outcome :=
  match source, content with
  | .standardInput, c => query o (c.getD [])
  | .file _, some c => query o (Markup.unifyLineEnds c)
  | .file n, none => { ending := .fault (.missingFile n) }

end TreeQuery.CommandLine
