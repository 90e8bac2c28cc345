import Symbolic.Chain.Balanced
import Symbolic.Chain.Terms
import Symbolic.Expr.Answer
import Symbolic.Memory

/-!
# Multiples of a term

A later term of a chain may repeat an earlier one: `3*x` repeats `x` three times
in a sum, and `x^6` repeats `x^2` three times in a product.  The number of
repetitions, the multiple, is looked for under the operation that stands for
repeated terms.  Only exact cases are found.
-/

namespace Symbolic

/-- A simplification of operands one level below the present one. -/
abbrev Recursion := Expr -> Work Expr

/-- The terms of a chain of a commutative operation. -/
def chainTerms (registry : Registry) (focus : Operation) (e : Expr) :
    Work (List Expr) := do
  if focus.isCommutative then
    let inverse := registry.inverse? focus
    if inverse.isNone then
      Work.note (.noInverse focus.symbol)
    openChain focus inverse true e
  else
    throw (.notCommutative focus.symbol)

/-- The list without its first element that equals the given tree, if there is
one. -/
def withoutFirst (base : Expr) : List Expr -> Result (Option (List Expr))
  | [] => .ok none
  | factor :: rest => do
    if ← factor.equal base then
      return some rest
    else
      return (← withoutFirst base rest).map (factor :: ·)

/-- What is left of the factors of `target` when `base` is taken out once;
nothing left counts as one. -/
def productMultiple
    (registry : Registry)
    (operation : Operation)
    (base target : Expr) : Work (Option Expr) := do
  let factors ← chainTerms registry operation target
  match ← withoutFirst base factors with
  | none => return none
  | some [] => return some (.int 1)
  | some (factor :: others) =>
    let cofactor ← operation.joinAll (factor :: others)
    return some cofactor

/-- A tree as base and exponent; what is no power has the exponent one. -/
def splitPower (exponential : Option Operation) (e : Expr) : Expr × Expr :=
  match e.unwrap with
  | .node operation base exponent =>
    if operation.plays exponential then (base, exponent)
    else (.node operation base exponent, .int 1)
  | other => (other, .int 1)

/-- The quotient of two exponents: the second one over a first that is one, or
an exact quotient of integers. -/
def exponentRatio (first second : Expr) : Result (Option Expr) := do
  if ← first.askOne then
    return some second
  else
    match first, second with
    | .const (.int m), .const (.int n) =>
      return if m ≠ 0 ∧ n % m = 0 then some (.int (n / m)) else none
    | _, _ => return none

/-- The quotient of the exponents of two powers of the same base, simplified. -/
def powerMultiple
    (settings : Settings)
    (recursion : Recursion)
    (base target : Expr) : Work (Option Expr) := do
  let exponential := settings.registry.exponential
  let (innerBase, baseExponent) := splitPower exponential base
  let (innerTarget, targetExponent) := splitPower exponential target
  if ← innerBase.equal innerTarget then
    match ← exponentRatio baseExponent targetExponent with
    | none => return none
    | some ratio =>
      let simplified ← recursion ratio
      return some simplified
  else
    return none

/-- How often `target` repeats `base` under an operation that stands for
repeated terms. -/
def multiple
    (settings : Settings)
    (recursion : Recursion)
    (operation : Operation)
    (base target : Expr) : Work (Option Expr) := do
  if operation.plays settings.registry.multiplicative then
    productMultiple settings.registry operation base target
  else if operation.plays settings.registry.exponential then
    powerMultiple settings recursion base target
  else
    Work.note (.noMatcher operation.symbol)
    return none

end Symbolic
