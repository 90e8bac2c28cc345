import Symbolic.Expr.Answer
import Symbolic.Expr.Equality
import Symbolic.Expr.Fingerprint
import Symbolic.Value

/-!
# Compiled expressions

Compiling resolves every variable to its place in an ordering and turns every
constant into a double, once.  The code then runs on the values of the variables
alone, all arithmetic being that of doubles.  The values are one double for each
variable, or a row of doubles for each.

Code is kept for later: a tree that equals an earlier one over the same ordering
gets the code of that one.  Trees are compared by the ids of their operations,
so this relies on different operations having different ids.
-/

namespace Symbolic

/-- A tree in which variables are places in an ordering. -/
inductive Code where
  | constant (value : Float)
  | slot (index : Nat)
  | apply (kernel : Kernel) (left right : Code)

/-- The values that code runs on. -/
inductive Sample where
  | point (values : List Float)
  | table (rows : List (List Float))

namespace Sample

/-- The number of values or rows. -/
def size : Sample -> Nat
  | point values => values.length
  | table rows => rows.length

/-- The value or the row at a place. -/
def get? : Sample -> Nat -> Option Value
  | point values, index => values[index]?.map fun x => .number (.real x)
  | table rows, index => rows[index]?.map .array

end Sample

namespace Code

/-- Run code, the left operand before the right one. -/
def run (sample : Sample) : Code -> Result Value
  | constant value => .ok (.number (.real value))
  | slot index =>
    match sample.get? index with
    | some value => .ok value
    | none => .error (.indexOutOfBounds index sample.size)
  | apply kernel left right => do
    let x ← left.run sample
    let y ← right.run sample
    Value.combine kernel x y

/-- The code of a tree over an ordering of variables. -/
def ofExpr (names : List String) : Expr -> Result Code
  | .const value =>
    match value.toDouble? with
    | some x => .ok (constant x)
    | none => .error .integerTooLarge
  | .var name =>
    match names.idxOf? name with
    | some index => .ok (slot index)
    | none => .error (.unknownVariable name names)
  | .node operation left right => do
    let left' ← ofExpr names left
    let right' ← ofExpr names right
    return apply operation.kernel left' right'
  | .wrap inner => ofExpr names inner
  | .blank => .error (.invalidExpression "Cannot compile a blank operand" none)
  | .foreign object => .error (.unknownOperand .compilation object)

end Code

/-- Code that was made for a tree over an ordering of variables. -/
structure KeptCode where
  tree : Expr
  names : List String
  code : Code

/-- The code serves a tree that is equal to its own, over the same ordering.  A
foreign object is equal to no tree. -/
def KeptCode.serves
    (kept : KeptCode)
    (names : List String)
    (tree : Expr) : Bool :=
  match kept.tree.equal tree with
  | .ok isEqual => isEqual && kept.names == names
  | .error _ => false

/-- The code that is kept, the piece that was used last in front. -/
abbrev CodeCache := List KeptCode

namespace CodeCache

/-- How many pieces of code are kept. -/
def capacity : Nat := 1024

/-- The code of a tree over an ordering of variables, which is the code that
serves it or is made and kept; then the piece that was not used for longest may
be given up.  Nothing is kept of a failure. -/
def code
    (cache : CodeCache)
    (names : List String)
    (tree : Expr) : Result (Code × CodeCache) :=
  match cache.find? (·.serves names tree) with
  | some kept => .ok (kept.code, kept :: cache.eraseP (·.serves names tree))
  | none => do
    let code ← Code.ofExpr names tree
    return (code, (⟨tree, names, code⟩ :: cache).take capacity)

/-- As long as no code is kept, the code of a tree is made. -/
theorem code_nil (names : List String) (tree : Expr) :
    code [] names tree =
      (Code.ofExpr names tree >>= fun made =>
        .ok (made, [⟨tree, names, made⟩])) := rfl

end CodeCache

/-- A compiled tree with its ordering of variables. -/
structure Compiled where
  tree : Expr
  names : List String
  code : Code

namespace Compiled

/-- The names that occur more than once, sorted. -/
def repeatedNames (names : List String) : List String :=
  ((names.filter fun name => decide (1 < names.count name)).mergeSort
    fun left right => decide (left ≤ right)).eraseDups

/-- A foreign object inside a node has no fingerprint, one that is the whole
tree is only met by the compiler. -/
def checkOperand : Expr -> Result Unit
  | .foreign _ => .ok ()
  | e => do
    let _ ← e.fingerprint
    return ()

/-- Compile a tree over an ordering of variables, by default its own variables
in the order of their names.  The result comes with the code that is kept
now. -/
def ofExprWith
    (cache : CodeCache)
    (names? : Option (List String))
    (tree : Expr) : Result (Compiled × CodeCache) := do
  let names ←
    match names? with
    | some names => pure names
    | none => tree.askVariableNames
  if (repeatedNames names).isEmpty then
    checkOperand tree
    let (code, after) ← cache.code names tree
    return (⟨tree, names, code⟩, after)
  else
    throw (.repeatedVariables (repeatedNames names))

/-- Over a given ordering a tree is checked and then compiled, unless a name is
repeated. -/
theorem ofExprWith_some
    (cache : CodeCache)
    (names : List String)
    (tree : Expr) :
    ofExprWith cache (some names) tree =
      if (repeatedNames names).isEmpty then
        checkOperand tree >>= fun _ =>
          cache.code names tree >>= fun (code, after) =>
            .ok (⟨tree, names, code⟩, after)
      else .error (.repeatedVariables (repeatedNames names)) := rfl

/-- Without an ordering the tree is asked for its variables. -/
theorem ofExprWith_none (cache : CodeCache) (tree : Expr) :
    ofExprWith cache none tree =
      tree.askVariableNames >>= fun names =>
        ofExprWith cache (some names) tree := rfl

/-- Compile a tree when no code is kept yet. -/
def ofExpr (names? : Option (List String)) (tree : Expr) : Result Compiled :=
  Prod.fst <$> ofExprWith [] names? tree

/-- The code of a tree that is compiled first is made for it. -/
theorem ofExpr_some (names : List String) (tree : Expr) :
    ofExpr (some names) tree =
      if (repeatedNames names).isEmpty then
        checkOperand tree >>= fun _ =>
          Code.ofExpr names tree >>= fun code => .ok ⟨tree, names, code⟩
      else .error (.repeatedVariables (repeatedNames names)) := by
  rw [ofExpr, ofExprWith_some, apply_ite (Prod.fst <$> ·)]
  congr 1
  cases checkOperand tree with
  | error failure => rfl
  | ok _ =>
    rw [CodeCache.code_nil]
    cases Code.ofExpr names tree <;> rfl

/-- A tree that is to be compiled, with an ordering of variables if one is
given. -/
structure Request where
  names? : Option (List String)
  tree : Expr

/-- The code that is kept after a tree was compiled or refused. -/
def keep (cache : CodeCache) (request : Request) : CodeCache :=
  match ofExprWith cache request.names? request.tree with
  | .ok (_, after) => after
  | .error _ => cache

/-- The code that is kept after several requests, one after the other. -/
def keptAfter (requests : List Request) : CodeCache :=
  requests.foldl keep []

/-- Run a compiled tree. -/
def run (compiled : Compiled) (sample : Sample) : Result Value :=
  compiled.code.run sample

/-- The only element of a value, as a double. -/
def single : Value -> Result Float
  | .number value => .ok value.toDouble
  | .array [x] => .ok x
  | .array _ => .error .notOneElement

/-- Run a compiled tree where the result is one double. -/
def value (compiled : Compiled) (sample : Sample) : Result Float := do
  single (← compiled.run sample)

/-- Call a compiled tree with one argument for each variable. -/
def call (compiled : Compiled) (arguments : List Float) : Result Float :=
  if arguments.length = compiled.names.length then
    compiled.value (.point arguments)
  else .error (.argumentCount compiled.names arguments.length)

/-- The values of the variables, in the order of the names. -/
def valuesOf (values : String -> Option Float) :
    List String -> Result (List Float)
  | [] => .ok []
  | name :: rest =>
    match values name with
    | none => .error (.missingValue name)
    | some x => do
      let others ← valuesOf values rest
      return x :: others

/-- Run a compiled tree on named values. -/
def runNamed (compiled : Compiled) (values : String -> Option Float) :
    Result Value := do
  compiled.run (.point (← valuesOf values compiled.names))

/-- Write a compiled tree with its variables. -/
def writeForm (compiled : Compiled) : Except Unwritable String := do
  return "CompiledExpression(" ++ (← compiled.tree.writeText) ++
    ", variables=" ++ Text.quotedList compiled.names ++ ")"

end Compiled
end Symbolic
