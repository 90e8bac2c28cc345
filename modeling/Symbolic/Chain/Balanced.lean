import Symbolic.Registry.Transform

/-!
# Balanced trees of terms

Terms are joined to a balanced tree in rounds: neighbours are paired from left
to right, an odd last term is carried over, and the round is repeated until one
tree is left.  Two constants are evaluated at once instead of being grouped.
-/

namespace Symbolic
namespace Operation

/-- Join two operands: constants are evaluated, all others grouped. -/
def join (operation : Operation) : Expr -> Expr -> Result Expr
  | .foreign object, _ => .error (.unanswered object .isConstant)
  | .const _, .foreign object => .error (.unanswered object .isConstant)
  | .const a, .const b => operation.evaluate (.const a) (.const b)
  | left, right => .ok (.node operation left right)

/-- One round of joining neighbours. -/
def joinPairs (operation : Operation) : List Expr -> Result (List Expr)
  | first :: second :: rest => do
    let joined ← operation.join first second
    let others ← operation.joinPairs rest
    return joined :: others
  | terms => .ok terms

/-- A round halves the number of trees, rounding up. -/
theorem length_of_joinPairs
    (operation : Operation)
    (terms : List Expr) :
    forall joined, operation.joinPairs terms = .ok joined ->
      joined.length = (terms.length + 1) / 2 := by
  fun_induction joinPairs operation terms with
  | case1 first second rest inductive_step =>
    intro joined
    cases operation.join first second with
    | error failure => simp [bind, Except.bind]
    | ok head =>
      cases tail : operation.joinPairs rest with
      | error failure => simp [bind, Except.bind]
      | ok others =>
        have := inductive_step others tail
        simp only [bind, Except.bind, pure, Except.pure, Except.ok.injEq]
        rintro rfl
        simp [this]
        omega
  | case2 terms notTwo =>
    intro joined
    simp only [Except.ok.injEq]
    rintro rfl
    match terms, notTwo with
    | [], _ => rfl
    | [_], _ => simp
    | first :: second :: rest, impossible =>
      exact absurd rfl (impossible first second rest)

/-- Join terms to one balanced tree. -/
def joinAll (operation : Operation) (terms : List Expr) : Result Expr :=
  match terms with
  | [] => .error (.emptyFold operation.symbol)
  | [term] => .ok term
  | first :: second :: rest =>
    match _round : operation.joinPairs (first :: second :: rest) with
    | .error failure => .error failure
    | .ok joined => operation.joinAll joined
termination_by terms.length
decreasing_by
  have := operation.length_of_joinPairs _ _ _round
  simp at this ⊢
  omega

/-- Two integers are evaluated at once. -/
@[simp] theorem join_int
    (operation : Operation)
    (a b : Int) :
    operation.join (.int a) (.int b) = operation.evaluate (.int a) (.int b) :=
      rfl

/-- A single term is its own tree. -/
@[simp] theorem joinAll_singleton
    (operation : Operation)
    (term : Expr) :
    operation.joinAll [term] = .ok term := by
  simp [joinAll]

end Operation
end Symbolic
