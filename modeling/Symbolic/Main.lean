import Symbolic.CommandLine.Session

/-!
# The program

The entry point prints what a run leaves on the two channels and returns its
status.
-/

open Symbolic

/-- Simplify the expression given on the command line. -/
def main (arguments : List String) : IO UInt32 := do
  match CommandLine.run arguments with
  | .ok outcome =>
    IO.print outcome.output
    IO.eprint outcome.errors
    return outcome.status.toUInt32
  | .error e =>
    IO.eprintln e.message
    return 1
