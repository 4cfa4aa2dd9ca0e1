import TreeQuery.CommandLine.Options

/-!
# Reading arguments

The arguments are first told apart, then read from left to right. An option may be shortened as long
as only one begins so, and may have its value behind an equals sign. Behind two hyphens there are no
options. The first argument that belongs to no option is the path.
-/

namespace TreeQuery.CommandLine

/-! ### Telling arguments apart

An argument is told apart without regard to the arguments around it, but for the first two hyphens,
behind which nothing is an option any more. A negative number, and an argument with a space in it,
is no option unless it is spelled like one. -/

/-- What an argument is. -/
inductive Argument where
  /-- An option, with its value if that stands behind an equals sign in the same argument. -/
  | known (flag : Flag) (value : Option Text)
  /-- The option `-h` with something joined to it. -/
  | joined (behind : Text)
  | unknown (written : Text)
  /-- The first two hyphens. -/
  | separator
  | plain (written : Text)
  deriving DecidableEq, Repr

def splitValue (a : Text) : Text × Option Text :=
  match Text.splitAround? ['='] a with
  | some (n, v) => (n, some v)
  | none => (a, none)

def candidates (beginning : Text) : List (Text × Flag) :=
  Flag.spellings.filter fun (s, _) => beginning.isPrefixOf s

/-- Whether an argument is a negative number. -/
def isNegativeNumber : Text → Bool
  | '-' :: r =>
    let r := if r.getLast? == some '\n' then r.dropLast else r
    let behind := r.dropWhile Char.isDigit
    (!r.isEmpty && behind.isEmpty)
      || (behind.head? == some '.' && 1 < behind.length && behind.tail.all Char.isDigit)
  | _ => false

/-- What an argument is that looks like an option, but that no option is spelled like. -/
def classifyUnknown (a : Text) : Argument :=
  if isNegativeNumber a || a.contains ' ' then .plain a else .unknown a

/-- What an argument is that begins with a hyphen and goes on, and that is no option's spelling. -/
def classifyByBeginning (a : Text) : Except ArgumentError Argument :=
  match a with
  | '-' :: '-' :: _ =>
    let (n, v) := splitValue a
    match candidates n with
    | [(_, f)] => .ok (.known f v)
    | [] => .ok (classifyUnknown a)
    | cs => .error (.ambiguous a (cs.map (·.1)))
  | '-' :: 'h' :: r => .ok (.joined r)
  | _ => .ok (classifyUnknown a)

/-- What an argument in front of the separator is. -/
def classifyOne (a : Text) : Except ArgumentError Argument :=
  match a with
  | '-' :: _ :: _ =>
    match Flag.spellings.lookup a with
    | some f => .ok (.known f none)
    | none =>
      let (n, v) := splitValue a
      match v, Flag.spellings.lookup n with
      | some v, some f => .ok (.known f (some v))
      | _, _ => classifyByBeginning a
  | _ => .ok (.plain a)

def classify : List Text → Except ArgumentError (List Argument)
  | [] => .ok []
  | a :: r =>
    if a = ['-', '-'] then .ok (.separator :: r.map .plain)
    else do
      let b ← classifyOne a
      let rest ← classify r
      return b :: rest

/-! ### Reading them

What has been read of the arguments is kept in one record, so that reading is one recursion on the
list of them. An argument that is not understood does not stop it: it is reported when all the
others have been read, as faults of the others go first. -/

/-- What the arguments ask to do. -/
inductive Request where
  | help
  | version
  | query (options : Options)
  deriving DecidableEq, Repr

/-- How far arguments have been read. -/
structure Progress where
  options : Options := {}
  pathTaken : Bool := false
  /-- The arguments that are not understood, latest first. -/
  left : List Text := []
  deriving DecidableEq, Repr

namespace Progress

/-- Leave an argument aside. -/
def leave (a : Text) (p : Progress) : Progress := { p with left := a :: p.left }

/-- Take an argument that belongs to no option. -/
def takePlain (a : Text) (p : Progress) : Progress :=
  if p.pathTaken then p.leave a
  else { p with options := { p.options with path := some a }, pathTaken := true }

/-- Take the value of an option. -/
def takeValue (f : Flag) (v : Text) (p : Progress) : Except ArgumentError Progress :=
  match f with
  | .selector => .ok { p with options := { p.options with selector := some v } }
  | .xpath => .ok { p with options := { p.options with xpath := some v } }
  | .format =>
    match Format.named.lookup v with
    | some g => .ok { p with options := { p.options with format := g } }
    | none => .error (.unknownFormat v)
  | _ => .error (.unexpectedValue f v)

/-- Take an option without a value; some options put an end to reading. -/
def takeFlag (f : Flag) (p : Progress) : Except Request Progress :=
  match f with
  | .help => .error .help
  | .version => .error .version
  | .first => .ok { p with options := { p.options with first := true } }
  | .verbose => .ok { p with options := { p.options with verbose := true } }
  | _ => .ok p

def finish (p : Progress) : Except ArgumentError Request :=
  if p.left.isEmpty then .ok (.query p.options) else .error (.unrecognized p.left.reverse)

end Progress

/-- What is asked for by `-h` with something joined to it: further options of one letter, of which
there is only this one, and other letters, which are not looked at any more. -/
def readJoined : Text → Except ArgumentError Request
  | [] => .error (.unexpectedValue .help [])
  | c :: r =>
    if c = '-' then .error (.unexpectedValue .help (c :: r))
    else if c = 'h' then
      match r with
      | [] => .ok .help
      | d :: r' => if d = '=' then .error (.unexpectedValue .help r') else readJoined (d :: r')
    else .ok .help

/-- Read arguments from left to right. The separator belongs to the path beside it. -/
def read (p : Progress) : List Argument → Except ArgumentError Request
  | [] => p.finish
  | .unknown a :: r => read (p.leave a) r
  | .plain a :: .separator :: r =>
    read (if p.pathTaken then (p.leave a).leave ['-', '-'] else p.takePlain a) r
  | .plain a :: r => read (p.takePlain a) r
  | .separator :: r => read (if p.pathTaken then p.leave ['-', '-'] else p) r
  | .joined t :: _ => readJoined t
  | .known f (some v) :: r => do
    let p ← p.takeValue f v
    read p r
  | .known f none :: r =>
    if f.takesValue then
      match r with
      | .plain v :: r => do
        let p ← p.takeValue f v
        read p r
      | _ => .error (.missingValue f)
    else
      match p.takeFlag f with
      | .ok p => read p r
      | .error request => .ok request

/-- What the arguments ask to do. -/
def Request.ofArguments (arguments : List Text) : Except ArgumentError Request := do
  read {} (← classify arguments)

end TreeQuery.CommandLine
