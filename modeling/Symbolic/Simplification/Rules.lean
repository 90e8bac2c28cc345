import Symbolic.Expr.Answer
import Symbolic.Registry.Basic

/-!
# Identity and absorbing elements

One rule at most applies to a node: zero vanishes from sums and absorbs
products, one vanishes from products, powers with a base or exponent zero or one
are settled, and a negative exponent becomes a quotient.
-/

namespace Symbolic
namespace Rules

/-- The rules for a sum. -/
def sum (whole left right : Expr) : Result Expr := do
  if ← right.askZero then return left
  else if ← left.askZero then return right
  else return whole

/-- The rules for a product. -/
def product (whole left right : Expr) : Result Expr := do
  if ← left.askZero then return .int 0
  else if ← right.askZero then return .int 0
  else if ← right.askOne then return left
  else if ← left.askOne then return right
  else return whole

/-- A power with a negative constant exponent as a quotient, if the registry can
express it. -/
def negativePower
    (registry : Registry)
    (operation : Operation)
    (base exponent : Expr) : Expr :=
  match exponent, registry.multiplicative.bind registry.inverse? with
  | .const value, some inverse =>
    if value.isNegative then
      .node inverse.operation (.int 1) (.node operation base (.const value.neg))
    else .node operation base exponent
  | _, _ => .node operation base exponent

/-- The rules for a power. -/
def power
    (registry : Registry)
    (operation : Operation)
    (base exponent : Expr) : Result Expr := do
  if ← exponent.askZero then return .int 1
  else if ← base.askZero then return .int 0
  else if ← base.askOne then return .int 1
  else if ← exponent.askOne then return base
  else return negativePower registry operation base exponent

/-- Apply the rule for a node, if there is one. -/
def apply
    (registry : Registry)
    (operation : Operation)
    (left right : Expr) : Result Expr :=
  if operation.plays registry.additive then
    sum (.node operation left right) left right
  else if operation.plays registry.multiplicative then
    product (.node operation left right) left right
  else if operation.plays registry.exponential then
    power registry operation left right
  else .ok (.node operation left right)

end Rules
end Symbolic
