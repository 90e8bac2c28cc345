import Symbolic.Simplification.Pass

/-!
# Simplification

A node goes through pass after pass until a pass leaves its fingerprint alone or
leads back to a tree that was seen before.  Every pass after the first one works
on a copy of the memory that is given up afterwards; only the final result is
remembered, in front of its bucket.

Every simplification enters a level of the memory and leaves it again, and the
number of levels is bounded.  `simplifyWithin` recurses on fuel, of which
`simplify` gives as much as there are levels left; so the levels run out before
the fuel does.
-/

namespace Symbolic

/-- Run passes on `current`, which came from `source`, at most as many as
given. -/
def iterate
    (settings : Settings)
    (recursion : Recursion)
    (source : Expr) : (passes : Nat) -> (current : Expr) -> Work Expr
  | 0, _ =>
    throw (.divergence .iterations settings.limits.iterations (some source))
  | passes + 1, current => do
    let pass ← Pass.run settings recursion current
    if pass.isChanged then
      let key ← pass.result.fingerprint
      match ← Work.findEqual key pass.result with
      | some previous =>
        Work.note (.returned source previous)
        return previous
      | none =>
        Work.note (.advanced current pass.result)
        Work.isolated do
          Work.remember key pass.result pass.result false
          iterate settings recursion source passes pass.result
    else
      return pass.result

/-- Simplify a node, or recall what it was simplified to before. -/
def simplifyNode
    (settings : Settings)
    (recursion : Recursion)
    (source : Expr) : Work Expr := do
  let key ← source.fingerprint
  match ← Work.retrieve settings key source with
  | some remembered =>
    Work.note (.recalled source)
    return remembered
  | none =>
    let result ←
      iterate settings recursion source settings.limits.iterations source
    Work.remember key source result true
    return result

/-- Simplify a tree whose operands are simplified by `recursion`. -/
def simplifyRoot
    (settings : Settings)
    (recursion : Recursion) : Expr -> Work Expr
  | .wrap inner => recursion inner
  | .node operation left right =>
    simplifyNode settings recursion (.node operation left right)
  | .foreign object => throw (.unknownOperand .simplification object)
  | leaf => return leaf

/-- Simplify a tree one level further down, with fuel for nested
simplifications. -/
def simplifyWithin (settings : Settings) : (fuel : Nat) -> Expr -> Work Expr
  | 0, e => throw (.divergence .depth settings.limits.depth (some e))
  | fuel + 1, e =>
    Work.descend settings e
      (simplifyRoot settings (simplifyWithin settings fuel) e)

/-- Simplify a tree at the present depth. -/
def simplify (settings : Settings) (e : Expr) : Work Expr := do
  let memory ← get
  simplifyWithin settings (settings.limits.depth - memory.depth) e

/-- The simplified tree, starting without memory. -/
def simplified (settings : Settings) (e : Expr) : Result Expr :=
  ((simplify settings e).outcome .empty).1

end Symbolic
