import Symbolic.Error

/-!
# Arguments as operands, and substitution

Trees stand for themselves and bare numbers for constants; texts and truth
values stand for nothing.  Substitution replaces variables by arguments, all at
once and from left to right, and keeps wrappers and blanks.
-/

namespace Symbolic

/-- The reason why an argument of the wrong kind is no operand. -/
def Argument.refusal : Argument -> String
  | .truth _ => "booleans are not numbers"
  | _ => "expected an operand, int or float"

/-- The operand that an argument stands for. -/
def Argument.operand : Argument -> Result Expr
  | .tree (.foreign object) =>
    .error (.invalidOperation "operand" [object.kind]
      (some "expected an operand, int or float"))
  | .tree e => .ok e
  | .int value => .ok (.int value)
  | .real value => .ok (.const (.real value))
  | argument =>
    .error (.invalidOperation "operand" [argument.kind] (some argument.refusal))

namespace Expr

/-- Replace the variables that have a value. -/
def substitute (values : String -> Option Argument) : Expr -> Result Expr
  | var name =>
    match values name with
    | some argument => argument.operand
    | none => .ok (var name)
  | node operation left right => do
    let left' ← left.substitute values
    let right' ← right.substitute values
    return node operation left' right'
  | wrap inner => do
    let inner' ← inner.substitute values
    return wrap inner'
  | foreign object => .error (.unanswered object .substitution)
  | e => .ok e

/-- Combine two arguments under an operation.  If one of them is no operand, the
operation and both kinds are reported. -/
def combine (operation : Operation) (left right : Argument) : Result Expr :=
  match left.operand, right.operand with
  | .ok left', .ok right' => .ok (node operation left' right')
  | _, _ =>
    .error (.invalidOperation operation.symbol [left.kind, right.kind] none)

/-- The opposite of a tree: a constant changes its sign, any other tree is
multiplied by minus one. -/
def opposite : Expr -> Expr
  | const value => const value.neg
  | e => node .product (int (-1)) e

end Expr
end Symbolic
