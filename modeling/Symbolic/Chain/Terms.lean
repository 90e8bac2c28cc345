import Symbolic.Registry.Basic

/-!
# The terms of a chain

A chain is a tree of nodes under one commutative operation, the focus, and
under its inverse.  Its terms are the operands that are no such nodes, from
left to right, the right operand of an inverse node after its transform.

Below the right operand of an inverse node the view is turned over: an
inverse node met there has its operands swapped, so that `a - (b - c)` has
the terms `a`, `c` and `-1*b`.  Only one such turn is exact; the terms of
`a - (b - (c - d))` are `a`, `d`, `-1*c` and `-1*b`.

A transform can build a node that is opened again, when the inverse
operation has the id of the product or of the power.  The opening still ends:
`chainMeasure` grows with the tree and, for trees of one size, with the number
of times that a constant operand lets a transform be repeated.
-/

namespace Symbolic

/-- The size of a tree in which constants weigh less than every other leaf. -/
def Expr.weight : Expr -> Nat
  | .const _ => 1
  | .node _ left right => 1 + left.weight + right.weight
  | .wrap inner => 1 + inner.weight
  | _ => 2

/-- How many more nodes of the same weight a transform can lead to. -/
def Transform.repeats (transform : Transform) (upright : Bool) : Expr -> Nat
  | .node _ left right =>
    match transform with
    | .negate =>
      if upright && left.isConst then 1
      else if !upright && right.isConst then 2 else 0
    | .reciprocal =>
      if upright && left.isConst then 2
      else if !upright && right.isConst then 1 else 0
  | _ => 0

/-- The measure by which opening a chain decreases. -/
def chainMeasure (inverse : Option Inverse) (upright : Bool) (e : Expr) : Nat :=
  3 * e.weight + (inverse.map fun i => i.transform.repeats upright e).getD 0

namespace Expr

/-- No tree is without weight. -/
theorem weight_pos (e : Expr) : 0 < e.weight := by
  cases e <;> simp only [weight] <;> omega

/-- Only constants weigh one. -/
theorem weight_eq_one_iff (e : Expr) : e.weight = 1 ↔ e.isConst = true := by
  cases e with
  | node operation left right =>
    have := left.weight_pos
    simp [weight, isConst]
    omega
  | wrap inner =>
    have := inner.weight_pos
    simp [weight, isConst]
    omega
  | _ => simp [weight, isConst]

/-- The operand that stays upright is lighter than its node. -/
theorem weight_kept_lt
    (operation : Operation)
    (left right : Expr)
    (upright : Bool) :
    (if upright then left else right).weight <
      (node operation left right).weight := by
  cases upright <;>
    simp only [Bool.false_eq_true, if_true, if_false, weight] <;> omega

/-- The operand that is turned over is lighter than its node. -/
theorem weight_turned_lt
    (operation : Operation)
    (left right : Expr)
    (upright : Bool) :
    (if upright then right else left).weight <
      (node operation left right).weight := by
  cases upright <;>
    simp only [Bool.false_eq_true, if_true, if_false, weight] <;> omega

end Expr

/-- The second part of the measure stays below the weight of a leaf. -/
theorem Transform.repeats_le_two
    (transform : Transform)
    (upright : Bool)
    (e : Expr) :
    transform.repeats upright e ≤ 2 := by
  cases e with
  | node operation left right =>
    cases transform <;> cases upright <;> simp [repeats] <;> split <;> omega
  | _ => simp [repeats]

/-- A lighter tree has a smaller measure, whichever way up it is seen. -/
theorem chainMeasure_lt_of_weight_lt
    {inverse : Option Inverse}
    {upright upright' : Bool}
    {e e' : Expr}
    (lighter : e'.weight < e.weight) :
    chainMeasure inverse upright' e' < chainMeasure inverse upright e := by
  unfold chainMeasure
  cases inverse with
  | none =>
    simp only [Option.map_none, Option.getD_none]
    omega
  | some i =>
    have := i.transform.repeats_le_two upright' e'
    simp only [Option.map_some, Option.getD_some]
    omega

/-- What a transform makes of a term: a constant, the term itself, or a node
of the term with a constant. -/
theorem Transform.apply_cases
    {transform : Transform}
    {e t : Expr}
    (applied : transform.apply e = .ok t) :
    (e.isConst = true ∧ t.isConst = true) ∨ t = e ∨
      (e.isConst = false ∧ transform = .negate ∧
        t = .node .product (.int (-1)) e) ∨
      (e.isConst = false ∧ transform = .reciprocal ∧
        t = .node .power e (.int (-1))) := by
  cases transform with
  | negate =>
    simp only [Transform.apply, Except.ok.injEq] at applied
    subst applied
    cases e with
    | node operation left right =>
      by_cases kept : operation.isSame .difference = true <;>
        simp [Transform.negateTerm, kept, Expr.isConst]
    | _ => simp [Transform.negateTerm, Expr.isConst]
  | reciprocal =>
    simp only [Transform.apply] at applied
    cases e with
    | const value =>
      left
      simp only [Transform.invertFactor, Operation.evaluate] at applied
      split at applied
      · simp only [Except.ok.injEq] at applied
        subst applied
        simp [Expr.isConst]
      · simp at applied
    | node operation left right =>
      simp only [Transform.invertFactor] at applied
      split at applied <;> simp only [Except.ok.injEq] at applied <;>
        subst applied <;> simp [Expr.isConst]
    | _ =>
      simp only [Transform.invertFactor, Except.ok.injEq] at applied
      subst applied
      simp [Expr.isConst]

/-- The transformed operand of an inverse node, seen the other way up, is
smaller than the node. -/
theorem chainMeasure_transformed_lt
    (i : Inverse)
    (operation : Operation)
    (left right : Expr)
    (upright : Bool)
    (t : Expr)
    (applied : i.transform.apply (if upright then right else left) = .ok t) :
    chainMeasure (some i) (!upright) t <
      chainMeasure (some i) upright (.node operation left right) := by
  have leftPositive := left.weight_pos
  have rightPositive := right.weight_pos
  have leftConst := left.weight_eq_one_iff
  have rightConst := right.weight_eq_one_iff
  rcases Transform.apply_cases applied with
    ⟨_, isConst⟩ | rfl | ⟨notConst, negate, rfl⟩ | ⟨notConst, reciprocal, rfl⟩
  · apply chainMeasure_lt_of_weight_lt
    have := t.weight_eq_one_iff.2 isConst
    simp only [Expr.weight]
    omega
  · exact chainMeasure_lt_of_weight_lt
      (Expr.weight_turned_lt operation left right upright)
  · cases upright <;>
      simp_all [chainMeasure, Transform.repeats, Expr.weight, Expr.isConst] <;>
      split <;> simp_all <;> omega
  · cases upright <;>
      simp_all [chainMeasure, Transform.repeats, Expr.weight, Expr.isConst] <;>
      split <;> simp_all <;> omega

/-- The terms of a chain of `focus` that is seen upright or turned over. -/
def openChain
    (focus : Operation)
    (inverse : Option Inverse)
    (upright : Bool)
    (e : Expr) : Result (List Expr) :=
  match e with
  | .blank => .ok []
  | .const value => .ok [.const value]
  | .var name => .ok [.var name]
  | .wrap inner => openChain focus inverse upright inner
  | .foreign object => .error (.unknownOperand .unfolding object)
  | .node operation left right =>
    if operation.id = focus.id then do
      let first ← openChain focus inverse upright left
      let second ← openChain focus inverse upright right
      return first ++ second
    else
      match _present : inverse with
      | none => .ok [.node operation left right]
      | some i =>
        if operation.id = i.operation.id then
          match _applied : i.transform.apply
              (if upright then right else left) with
          | .error failure => .error failure
          | .ok turned => do
            let first ← openChain focus inverse upright
              (if upright then left else right)
            let second ← openChain focus inverse (!upright) turned
            return first ++ second
        else .ok [.node operation left right]
termination_by chainMeasure inverse upright e
decreasing_by
  · exact chainMeasure_lt_of_weight_lt (by simp only [Expr.weight]; omega)
  · exact chainMeasure_lt_of_weight_lt (by simp only [Expr.weight]; omega)
  · exact chainMeasure_lt_of_weight_lt (by simp only [Expr.weight]; omega)
  · subst _present
    exact chainMeasure_lt_of_weight_lt
      (Expr.weight_kept_lt operation left right upright)
  · subst _present
    exact chainMeasure_transformed_lt i operation left right upright turned
      _applied

end Symbolic
