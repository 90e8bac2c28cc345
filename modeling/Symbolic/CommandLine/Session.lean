import Symbolic.CommandLine.Arguments
import Symbolic.Compiled
import Symbolic.Parse
import Symbolic.Simplification.Engine

/-!
# Command line sessions

A session parses the expression, prints what it simplifies to, prints the tree
if asked, and evaluates it if values are given.  What was printed before an
error stays printed.
-/

namespace Symbolic
namespace CommandLine

/-- How to call the program. -/
def usage : String :=
  "usage: canonyx [-h] [--tree] [--eval NAME=VALUE]\n" ++
  "               [--max-iterations MAX_ITERATIONS] [--max-depth MAX_DEPTH] [-v]\n" ++
  "               [--version]\n" ++
  "               expression\n"

/-- The help text. -/
def help : String :=
  usage ++
  "\n" ++
  "Simplify an arithmetic expression into canonical form\n" ++
  "\n" ++
  "positional arguments:\n" ++
  "  expression            Expression to simplify, e.g. '2*x + x'\n" ++
  "\n" ++
  "options:\n" ++
  "  -h, --help            show this help message and exit\n" ++
  "  --tree                Print the simplified tree, one node per line\n" ++
  "  --eval NAME=VALUE     Evaluate the result with NAME bound to VALUE\n" ++
  "                        (repeatable)\n" ++
  "  --max-iterations MAX_ITERATIONS\n" ++
  "                        Rewrite passes allowed per subexpression (default 64)\n" ++
  "  --max-depth MAX_DEPTH\n" ++
  "                        Nested simplification levels allowed (default 100)\n" ++
  "  -v, --verbose         Log the simplification steps\n" ++
  "  --version             show program's version number and exit\n" ++
  "\n" ++
  "Examples:\n" ++
  "  canonyx 'x + x'                   Prints 2*x\n" ++
  "  canonyx 'x*x' --tree              Also prints the tree\n" ++
  "  canonyx 'x^2 + y' --eval x=3 --eval y=1  Prints 10.0\n"

/-- The version text. -/
def version : String :=
  "canonyx 1.0.0\n"

/-- What a session noted and printed so far. -/
structure Transcript where
  events : List Event
  printed : String

/-- A computation that prints and may fail. -/
abbrev Session := ExceptT Error (StateM Transcript)

namespace Session

/-- Note events. -/
def note (events : List Event) : Session Unit :=
  modify fun transcript =>
    { transcript with events := transcript.events ++ events }

/-- Print a line, if it can be written. -/
def print (line : Except Unwritable String) : Session Unit :=
  match line with
  | .ok text =>
    modify fun transcript =>
      { transcript with printed := transcript.printed ++ text ++ "\n" }
  | .error reason => throw reason.error

/-- The assignments, none of which may be missing, counted from `place` on. -/
def present
    (place : Nat) :
    List (Option (String × Float)) -> Result (List (String × Float))
  | [] => .ok []
  | none :: _ => .error (.missingAssignment place)
  | some assignment :: rest => do
    let others ← present (place + 1) rest
    return assignment :: others

/-- The value assigned last to a name. -/
def assigned? (assignments : List (String × Float)) (name : String) :
    Option Float :=
  assignments.reverse.lookup name

/-- The assigned names, sorted. -/
def assignedNames (assignments : List (String × Float)) : List String :=
  ((assignments.map Prod.fst).mergeSort fun left right =>
    decide (left ≤ right)).eraseDups

/-- The values of the variables, all of which must be assigned. -/
def arguments
    (assignments : List (String × Float)) :
    List String -> Result (List Float)
  | [] => .ok []
  | name :: rest =>
    match assigned? assignments name with
    | none => .error (.unknownVariable name (assignedNames assignments))
    | some x => do
      let others ← arguments assignments rest
      return x :: others

/-- Serve a request within limits. -/
def serve (request : Request) (limits : Limits) : Session Unit := do
  let parsed ← parse .standard request.expression
  note [.parsed parsed]
  let (outcome, memory) :=
    (simplify ⟨.standard, limits, true⟩ parsed).outcome .empty
  note memory.events.reverse
  let result ← outcome
  print result.writeText
  if request.showsTree then
    print (result.writeOutline 0)
  if !request.assignments.isEmpty then
    let assignments ← present 0 request.assignments
    let compiled ← Compiled.ofExpr none result
    let values ← arguments assignments compiled.names
    let value ← compiled.call values
    print (.ok (Decimal.doubleText value))

end Session

/-- What a run of the program leaves: a status and the texts on both
channels. -/
structure Outcome where
  status : Nat
  output : String
  errors : String
deriving DecidableEq, Repr

/-- The outcome when there is nothing to simplify. -/
def Stop.outcome : Stop -> Outcome
  | help => ⟨0, CommandLine.help, ""⟩
  | version => ⟨0, CommandLine.version, ""⟩
  | misuse cause =>
    ⟨2, "", usage ++ "canonyx: error: " ++ cause.describe ++ "\n"⟩

/-- The lines of events, each with a line break. -/
def eventText (followed : Bool) (events : List Event) : String :=
  String.join ((Event.report followed events).1.map fun line => line ++ "\n")

/-- Serve a request from nothing.  Errors about the expression are reported; any
other error ends the program. -/
def Request.serve (request : Request) (limits : Limits) : Result Outcome :=
  let (result, transcript) := (Session.serve request limits).run.run ⟨[], ""⟩
  let noted := eventText request.isVerbose transcript.events
  match result with
  | .ok () => .ok ⟨0, transcript.printed, noted⟩
  | .error e =>
    if e.settle.isDiagnostic then
      .ok ⟨1, transcript.printed, noted ++ "error: " ++ e.message ++ "\n"⟩
    else .error e.settle

/-- Serve a request, provided that its limits are positive. -/
def Request.outcome (request : Request) : Result Outcome := do
  match ← request.limits with
  | none => return (Stop.misuse .limitsTooSmall).outcome
  | some limits => request.serve limits

/-- Run the program on its arguments. -/
def run (arguments : List String) : Result Outcome :=
  match readArguments arguments with
  | .error stop => .ok stop.outcome
  | .ok request => request.outcome

end CommandLine
end Symbolic
