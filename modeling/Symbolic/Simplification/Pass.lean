import Symbolic.Chain.Collect
import Symbolic.Simplification.Rules

/-!
# One pass of a simplification

A pass over a node flattens its chain, evaluates the constant terms, collects
the others, simplifies both operands of what comes out and applies one rule.  It
asks for another pass when the fingerprint has changed.
-/

namespace Symbolic

/-- The outcome of a pass: a tree, and whether it calls for another pass. -/
structure Pass where
  result : Expr
  isChanged : Bool

namespace Pass

/-- A pass after which no other one follows. -/
def final (result : Expr) : Pass :=
  ⟨result, false⟩

/-- The node is `1/y`, the form that negative exponents take, and is left as it
is.  A constant `y` or a nested quotient still goes through the chain. -/
def isUnitFraction
    (registry : Registry)
    (focus operation : Operation)
    (left right : Expr) : Result Bool :=
  if focus.plays registry.multiplicative && operation.id != focus.id &&
      left.isOne then
    match right with
    | .const _ => .ok false
    | .node inner _ _ => .ok (inner.id != operation.id)
    | .wrap _ => .error .noOperation
    | _ => .ok true
  else .ok false

/-- Split terms into the constants, evaluated, and the other terms. -/
def splitConstants
    (recursion : Recursion) : List Expr -> Work (List Expr × List Expr)
  | [] => return ([], [])
  | term :: rest => do
    if term.hasOnlyConstants then
      let value ← recursion term
      let (constants, others) ← splitConstants recursion rest
      if value.isConst then return (value :: constants, others)
      else return (constants, value :: others)
    else
      let (constants, others) ← splitConstants recursion rest
      return (constants, term :: others)

/-- One tree for the terms that are no constants, if any is left. -/
def residue
    (settings : Settings)
    (recursion : Recursion)
    (focus : Operation) : List Expr -> Work (Option Expr)
  | [] => return none
  | [term] => do
    let simplified ← recursion term
    return some simplified
  | terms => do
    let collected ← collect settings recursion focus terms
    if collected.isEmpty then return none
    else
      let joined ← focus.joinAll collected
      return some joined

/-- A rest that is a constant joins the other constants. -/
def absorbConstant (constants : List Expr) :
    Option Expr -> List Expr × Option Expr
  | some (.const value) => (constants ++ [.const value], none)
  | rest => (constants, rest)

/-- Flatten a chain, evaluate its constants and collect the rest.  The result is
the constant, the rest, or both under the focus with the constant first. -/
def reduceChain
    (settings : Settings)
    (recursion : Recursion)
    (focus : Operation)
    (source : Expr) : Work Expr := do
  let terms ← chainTerms settings.registry focus source
  Work.note (.unfolded source terms.length)
  let (evaluated, others) ← splitConstants recursion terms
  let rest ← residue settings recursion focus others
  let (constants, rest) := absorbConstant evaluated rest
  if constants.isEmpty then
    return rest.getD .blank
  else
    let constant ← focus.joinAll constants
    match rest with
    | none => return constant
    | some e => return .node focus constant e

/-- Simplify the operands of a node, if it is one. -/
def refine (recursion : Recursion) : Expr -> Work Expr
  | .node operation left right => do
    let left' ← recursion left
    let right' ← recursion right
    return .node operation left' right'
  | e => return e

/-- Simplify the operands of a node and apply a rule to what they give.
`source` is the node of which this is a pass and `key` its fingerprint. -/
def finish
    (settings : Settings)
    (recursion : Recursion)
    (key : Fingerprint)
    (source : Expr)
    (operation : Operation)
    (left right : Expr) : Work Pass := do
  let left' ← recursion left
  let right' ← recursion right
  if left'.isConst && right'.isConst then
    let value ← operation.evaluate left' right'
    return final value
  else
    Work.remember key source (.node operation left' right') false
    let ruled ← Rules.apply settings.registry operation left' right'
    let result ← refine recursion ruled
    if result.isCompound then
      let resultKey ← result.fingerprint
      return ⟨result, Fingerprint.distance resultKey key != 0⟩
    else
      return final result

/-- One pass over a node. -/
def run (settings : Settings) (recursion : Recursion) : Expr -> Work Pass
  | .node operation left right => do
    let source : Expr := .node operation left right
    let focus := settings.registry.focusOf operation
    let key ← source.fingerprint
    let isChain ←
      if focus.isCommutative then
        (!·) <$> (isUnitFraction settings.registry focus operation
          left right : Result Bool)
      else pure false
    if isChain then
      match ← reduceChain settings recursion focus source with
      | .node combined left' right' =>
        finish settings recursion key source combined left' right'
      | .wrap inner => final <$> recursion inner
      | e => final <$> recursion e
    else
      finish settings recursion key source operation left right
  | _ => throw .noOperation

end Pass
end Symbolic
