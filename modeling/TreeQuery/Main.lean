import TreeQuery.CommandLine.Run

/-!
# The program

The outer layer: read what a plan asks for, print what comes of it, and exit.
-/

namespace TreeQuery.CommandLine

/-- The content of a source, if there is such a source. -/
def readSource : Source → IO (Option Text)
  | .standardInput => do return some (← (← IO.getStdin).readToEnd).toList
  | .file name => do
    try
      return some (← IO.FS.readFile (String.ofList name)).toList
    catch _ => return none

def report (o : Outcome) : IO UInt32 := do
  IO.print (String.ofList o.stdout)
  IO.eprint (String.ofList o.stderr)
  match o.ending with
  | .exit code => return code.toUInt32
  | .fault f =>
    IO.eprintln (String.ofList f.message)
    return 1

end TreeQuery.CommandLine

open TreeQuery.CommandLine in
/-- Run the program. -/
def main (arguments : List String) : IO UInt32 := do
  match plan (arguments.map String.toList) with
  | .settled o => report o
  | .reading source options => report (answer source options (← readSource source))
