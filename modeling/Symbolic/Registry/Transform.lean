import Symbolic.Error

/-!
# Evaluation of constant operands, and transforms of terms

Two constants under an operation have a value, or the arithmetic fault is
reported with them.  A transform turns the right operand of an inverse
operation into a term of the base operation: `a - b` is the sum of `a` and the
negated `b`, `a / b` the product of `a` and the reciprocal of `b`.
-/

namespace Symbolic

/-- The value of an operation on two constants. -/
def Operation.evaluate (operation : Operation) : Expr -> Expr -> Result Expr
  | .const a, .const b =>
    match operation.kernel.exact a b with
    | .ok value => .ok (.const value)
    | .error fault =>
      .error (.evaluation operation.symbol [.ofNumber a, .ofNumber b]
        (.fault fault))
  | left, right =>
    .error (.evaluation operation.symbol [.tree left, .tree right] .notConstant)

/-- How the right operand of an inverse operation becomes a term.  These two are
all the transforms there are here: an inverse is registered with one of them and
with no function of its own, so what holds for every registry holds for the
registries whose inverses have these transforms. -/
inductive Transform where
  | negate
  | reciprocal
deriving DecidableEq, Repr

namespace Transform

/-- Negate a term of a sum.  A difference is kept: its operands are swapped when
it is opened. -/
def negateTerm : Expr -> Expr
  | .const value => .const value.neg
  | .node operation left right =>
    if operation.isSame .difference then .node operation left right
    else .node .product (.int (-1)) (.node operation left right)
  | e => .node .product (.int (-1)) e

/-- Invert a factor of a product.  A quotient is kept, like a difference by
`negateTerm`. -/
def invertFactor : Expr -> Result Expr
  | .const value => Operation.quotient.evaluate (.int 1) (.const value)
  | .node operation left right =>
    if operation.isSame .quotient then .ok (.node operation left right)
    else .ok (.node .power (.node operation left right) (.int (-1)))
  | e => .ok (.node .power e (.int (-1)))

/-- Apply a transform to a term. -/
def apply : Transform -> Expr -> Result Expr
  | negate, e => .ok (negateTerm e)
  | reciprocal, e => invertFactor e

end Transform
end Symbolic
