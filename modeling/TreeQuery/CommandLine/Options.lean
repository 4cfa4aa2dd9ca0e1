import TreeQuery.Text.Quoted

/-!
# Options of the command line

The options that the command line knows, what their values may be, and what can be wrong with the
arguments.
-/

namespace TreeQuery.CommandLine

/-! ### What can be asked for

The shortened forms of the options and their names in diagnostics are taken from the one list of
spellings. -/

inductive Flag where
  | help
  | selector
  | xpath
  | format
  | first
  | verbose
  | version
  deriving DecidableEq, Repr

namespace Flag

/-- The ways to write each option. -/
def spellings : List (Text × Flag) := [
  ("-h".toList, help), ("--help".toList, help), ("--selector".toList, selector),
  ("--xpath".toList, xpath), ("--format".toList, format), ("--first".toList, first),
  ("--verbose".toList, verbose), ("--version".toList, version)]

/-- The option as it is named in diagnostics. -/
def display (f : Flag) : Text :=
  List.intercalate ['/'] ((spellings.filter (·.2 == f)).map (·.1))

/-- Whether a value follows the option. -/
def takesValue : Flag → Bool
  | selector | xpath | format => true
  | help | first | verbose | version => false

end Flag

/-- How the nodes that are found are printed. -/
inductive Format where
  | html
  | text
  deriving DecidableEq, Repr

namespace Format

def named : List (Text × Format) := [("html".toList, html), ("text".toList, text)]

end Format

/-- What the arguments ask for. -/
structure Options where
  /-- The file to query, or a hyphen for standard input. -/
  path : Option Text := none
  selector : Option Text := none
  /-- The selector whose expression is to be printed. -/
  xpath : Option Text := none
  format : Format := .html
  first : Bool := false
  verbose : Bool := false
  deriving DecidableEq, Repr

/-! ### Faults

A fault names the option it is about by all its spellings. -/

/-- A cause for which arguments are refused. -/
inductive ArgumentError where
  /-- A shortened option that could be several. -/
  | ambiguous (argument : Text) (candidates : List Text)
  | missingValue (option : Flag)
  | unexpectedValue (option : Flag) (value : Text)
  | unknownFormat (value : Text)
  | unrecognized (arguments : List Text)
  deriving DecidableEq, Repr

namespace ArgumentError

/-- What is said about an option. -/
def about (f : Flag) (t : Text) : Text :=
  "argument ".toList ++ f.display ++ ':' :: ' ' :: t

def message : ArgumentError → Text
  | ambiguous a cs =>
    "ambiguous option: ".toList ++ a ++ " could match ".toList ++ List.intercalate [',', ' '] cs
  | missingValue f => about f "expected one argument".toList
  | unexpectedValue f v => about f ("ignored explicit argument ".toList ++ Text.quote v)
  | unknownFormat v =>
    about .format ("invalid choice: ".toList ++ Text.quote v ++ " (choose from ".toList
      ++ List.intercalate [',', ' '] (Format.named.map fun f => Text.quote f.1) ++ [')'])
  | unrecognized as => "unrecognized arguments: ".toList ++ List.intercalate [' '] as

end ArgumentError

end TreeQuery.CommandLine
