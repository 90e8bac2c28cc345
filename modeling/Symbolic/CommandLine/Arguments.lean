import Symbolic.Decimal.Reader
import Symbolic.Memory

/-!
# Command line arguments

One positional argument holds the expression.  Options start with a dash; long
ones may be shortened to a prefix that only one of them has and may carry their
value behind an equals sign, short ones may be written together.  An argument
with a dash is still positional if it is a dash alone, looks like a negative
number or holds a space, and everything behind a double dash is positional.

A double dash behind an equals sign is no value: the option counts as given,
with nothing in the place of its value.
-/

namespace Symbolic
namespace CommandLine

/-- The options. -/
inductive Switch where
  | help
  | tree
  | evaluate
  | maxIterations
  | maxDepth
  | verbose
  | version
deriving DecidableEq, Repr

/-- The spellings of all options, in the order of the usage. -/
def spellings : List (String × Switch) :=
  [("-h", .help), ("--help", .help), ("--tree", .tree), ("--eval", .evaluate),
    ("--max-iterations", .maxIterations), ("--max-depth", .maxDepth),
    ("-v", .verbose), ("--verbose", .verbose), ("--version", .version)]

namespace Switch

/-- The option is followed by a value. -/
def takesValue : Switch -> Bool
  | evaluate => true
  | maxIterations => true
  | maxDepth => true
  | _ => false

/-- The name of an option in error reports. -/
def label (switch : Switch) : String :=
  "/".intercalate ((spellings.filter fun entry => entry.2 == switch).map
    Prod.fst)

end Switch

/-- What is wrong with the arguments. -/
inductive Misuse where
  | expressionMissing
  | unrecognized (arguments : List String)
  | ambiguous (argument : String) (candidates : List String)
  | valueMissing (switch : Switch)
  | valueIgnored (switch : Switch) (value : String)
  | notAnAssignment (text : String)
  | notANumber (text : String)
  | notAnInteger (switch : Switch) (text : String)
  | limitsTooSmall
deriving DecidableEq, Repr

/-- The wording of a misuse. -/
def Misuse.describe : Misuse -> String
  | expressionMissing => "the following arguments are required: expression"
  | unrecognized arguments =>
    "unrecognized arguments: " ++ " ".intercalate arguments
  | ambiguous argument candidates =>
    "ambiguous option: " ++ argument ++ " could match " ++
      ", ".intercalate candidates
  | valueMissing switch =>
    "argument " ++ switch.label ++ ": expected one argument"
  | valueIgnored switch value =>
    "argument " ++ switch.label ++ ": ignored explicit argument " ++
      Text.quoted value
  | notAnAssignment text =>
    "argument " ++ Switch.evaluate.label ++ ": expected NAME=VALUE, got " ++
      Text.quoted text
  | notANumber text =>
    "argument " ++ Switch.evaluate.label ++ ": not a number: " ++
      Text.quoted text
  | notAnInteger switch text =>
    "argument " ++ switch.label ++ ": invalid int value: " ++ Text.quoted text
  | limitsTooSmall => "--max-iterations and --max-depth must be at least 1"

/-- Why there is nothing to simplify: information was asked for, or the
arguments are wrong. -/
inductive Stop where
  | help
  | version
  | misuse (cause : Misuse)
deriving DecidableEq, Repr

/-- An argument by its role.  An option has a switch unless it is unknown, its
own spelling and perhaps a value of its own. -/
inductive Role where
  | positional (text : String)
  | divider
  | unknown (text : String)
  | option (switch : Switch) (isShort : Bool) (value : Option String)

/-- What is asked for.  An assignment or a limit is missing where its option was
given without a value. -/
structure Request where
  expression : String
  showsTree : Bool
  assignments : List (Option (String × Float))
  iterations : Option Int
  depth : Option Int
  isVerbose : Bool

/-- A text cut at its first equals sign. -/
def cutAtEquals (text : String) : Option (String × String) :=
  match text.toList.dropWhile (· != '=') with
  | [] => none
  | _ :: behind =>
    some (String.ofList (text.toList.takeWhile (· != '=')),
      String.ofList behind)

/-- A dash, digits and perhaps a point with digits behind it, and perhaps a line
break at the end. -/
def looksNegative (text : String) : Bool :=
  match text.toList with
  | '-' :: behind =>
    let (whole, rest) := Decimal.spanDigits behind
    match rest with
    | '.' :: fraction =>
      let (part, rest) := Decimal.spanDigits fraction
      !part.isEmpty && (rest == [] || rest == ['\n'])
    | _ => !whole.isEmpty && (rest == [] || rest == ['\n'])
  | _ => false

/-- The long options that start with a text, each with the value behind an
equals sign. -/
def longCandidates (text : String) : List (String × Role) :=
  let (stem, value) :=
    match cutAtEquals text with
    | some (stem, value) => (stem, some value)
    | none => (text, none)
  (spellings.filter fun entry => stem.toList.isPrefixOf entry.1.toList).map
    fun entry => (entry.1, .option entry.2 false value)

/-- The short options at the front of a text, the rest being their value. -/
def shortCandidates (text : String) : List (String × Role) :=
  let stem := String.ofList (text.toList.take 2)
  (spellings.filter fun entry => entry.1 == stem).map fun entry =>
    (entry.1, .option entry.2 true (some (String.ofList (text.toList.drop 2))))

/-- A spelled out option is short if its second character is no dash. -/
def isShortSpelling (spelling : String) : Bool :=
  (spelling.toList.drop 1).head? != some '-'

/-- The role of an argument that stands before any double dash. -/
def roleOf (text : String) : Except Stop Role :=
  match text.toList with
  | '-' :: second :: _ =>
    match spellings.lookup text with
    | some switch => .ok (.option switch (isShortSpelling text) none)
    | none =>
      let assigned := do
        let (stem, value) ← cutAtEquals text
        let switch ← spellings.lookup stem
        return Role.option switch (isShortSpelling stem) (some value)
      match assigned with
      | some role => .ok role
      | none =>
        match if second == '-' then longCandidates text
          else shortCandidates text with
        | [(_, role)] => .ok role
        | first :: others =>
          .error (.misuse (.ambiguous text ((first :: others).map Prod.fst)))
        | [] =>
          if looksNegative text || text.toList.contains ' ' then
            .ok (.positional text)
          else .ok (.unknown text)
  | _ => .ok (.positional text)

/-- The roles of all arguments. -/
def roles : List String -> Except Stop (List Role)
  | [] => .ok []
  | "--" :: rest => .ok (.divider :: rest.map .positional)
  | text :: rest => do
    let role ← roleOf text
    let others ← roles rest
    return role :: others

/-- The options that are written together: the first one without a value, and
the letters behind it. -/
def expandShort (switch : Switch) : List Char -> Except Stop (List Switch)
  | [] => .ok [switch]
  | c :: rest =>
    match spellings.lookup (String.ofList ['-', c]) with
    | some next => do
      let others ← expandShort next rest
      return switch :: others
    | none =>
      .error (.misuse (.valueIgnored switch (String.ofList (c :: rest))))

/-- The arguments read so far. -/
structure Reading where
  expression : Option String
  unrecognized : List String
  request : Request

/-- Nothing read yet. -/
def Reading.start : Reading :=
  ⟨none, [],
    ⟨"", false, [], some Limits.standard.iterations,
      some Limits.standard.depth, false⟩⟩

namespace Reading

/-- Take an option without a value. -/
def take (reading : Reading) : Switch -> Except Stop Reading
  | .help => .error .help
  | .version => .error .version
  | .tree => .ok { reading with request.showsTree := true }
  | .verbose => .ok { reading with request.isVerbose := true }
  | switch => .error (.misuse (.valueMissing switch))

/-- Take an assignment of a value to a name. -/
def assign (reading : Reading) (text : String) : Except Stop Reading :=
  match cutAtEquals text with
  | none => .error (.misuse (.notAnAssignment text))
  | some (name, value) =>
    let trimmed := String.ofList (Text.trim Text.isBlank name.toList)
    if trimmed.isEmpty then .error (.misuse (.notAnAssignment text))
    else
      match Decimal.readDouble? value with
      | none => .error (.misuse (.notANumber value))
      | some x =>
        .ok { reading with
          request.assignments :=
            reading.request.assignments ++ [some (trimmed, x)] }

/-- Read an integer value; one with too many digits is refused. -/
def readInteger (switch : Switch) (text : String) : Except Stop Int :=
  match Decimal.readInteger? text with
  | some value =>
    if Number.digitLimit < (text.toList.filter Text.isDigit).length then
      .error (.misuse (.notAnInteger switch text))
    else .ok value
  | none => .error (.misuse (.notAnInteger switch text))

/-- Take an option with its value. -/
def takeValue (reading : Reading) (switch : Switch) (text : String) :
    Except Stop Reading :=
  match switch with
  | .evaluate => reading.assign text
  | .maxIterations => do
    let value ← readInteger switch text
    return { reading with request.iterations := some value }
  | .maxDepth => do
    let value ← readInteger switch text
    return { reading with request.depth := some value }
  | other => .error (.misuse (.valueIgnored other text))

/-- Take an option that asks for a value and has none. -/
def takeNothing (reading : Reading) : Switch -> Reading
  | .evaluate =>
    { reading with
      request.assignments := reading.request.assignments ++ [none] }
  | .maxIterations => { reading with request.iterations := none }
  | .maxDepth => { reading with request.depth := none }
  | _ => reading

/-- Take an option that carries its value itself. -/
def takeAttached
    (reading : Reading)
    (switch : Switch)
    (isShort : Bool)
    (value : String) : Except Stop Reading :=
  if switch.takesValue then
    if value == "--" then .ok (reading.takeNothing switch)
    else reading.takeValue switch value
  else if isShort && !value.isEmpty then do
    let switches ← expandShort switch value.toList
    switches.foldlM take reading
  else .error (.misuse (.valueIgnored switch value))

/-- Set an argument aside that nothing asks for. -/
def setAside (reading : Reading) (text : String) : Reading :=
  { reading with unrecognized := reading.unrecognized ++ [text] }

/-- Read arguments by their roles.  The first positional one is the expression;
a double dash next to it is dropped. -/
def readAll (reading : Reading) : List Role -> Except Stop Reading
  | [] => .ok reading
  | .positional text :: rest =>
    match reading.expression, rest with
    | none, .divider :: others =>
      readAll { reading with expression := some text } others
    | none, others => readAll { reading with expression := some text } others
    | some _, others => readAll (reading.setAside text) others
  | .divider :: rest =>
    match reading.expression, rest with
    | none, .positional text :: others =>
      readAll { reading with expression := some text } others
    | _, others => readAll (reading.setAside "--") others
  | .unknown text :: rest => readAll (reading.setAside text) rest
  | .option switch isShort (some value) :: rest => do
    let next ← reading.takeAttached switch isShort value
    readAll next rest
  | .option switch _ none :: rest =>
    if switch.takesValue then
      match rest with
      | .positional value :: others => do
        let next ← reading.takeValue switch value
        readAll next others
      | _ => .error (.misuse (.valueMissing switch))
    else do
      let next ← reading.take switch
      readAll next rest

/-- The request that was read, if it is complete and nothing is left over. -/
def finish (reading : Reading) : Except Stop Request :=
  match reading.expression with
  | none => .error (.misuse .expressionMissing)
  | some text =>
    if reading.unrecognized.isEmpty then
      .ok { reading.request with expression := text }
    else .error (.misuse (.unrecognized reading.unrecognized))

end Reading

/-- The limits that are asked for, if both are positive.  A missing limit cannot
be judged, and the depth is only looked at when the passes are not too few. -/
def Request.limits (request : Request) : Result (Option Limits) :=
  match request.iterations with
  | none => .error .missingLimit
  | some iterations =>
    if iterations < 1 then .ok none
    else
      match request.depth with
      | none => .error .missingLimit
      | some depth =>
        .ok (if depth < 1 then none else some ⟨iterations.toNat, depth.toNat⟩)

/-- Read the arguments of a command line. -/
def readArguments (arguments : List String) : Except Stop Request := do
  let roles ← roles arguments
  let reading ← Reading.start.readAll roles
  reading.finish

end CommandLine
end Symbolic
