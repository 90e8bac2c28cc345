import Symbolic.Error

/-!
# Questions that foreign objects do not answer

Whether an operand is zero or one is a plain question for every tree, but a
foreign object does not answer it.
-/

namespace Symbolic
namespace Expr

/-- Whether the tree is a constant zero. -/
def askZero : Expr -> Result Bool
  | foreign object => .error (.unanswered object .isZero)
  | e => .ok e.isZero

/-- Whether the tree is a constant one. -/
def askOne : Expr -> Result Bool
  | foreign object => .error (.unanswered object .isOne)
  | e => .ok e.isOne

/-- The distinct variables of a tree in the order of their names. -/
def variableNames (e : Expr) : List String :=
  (e.names.mergeSort fun left right => decide (left ≤ right)).eraseDups

/-- The distinct variables of a tree, which a foreign object does not know. -/
def askVariableNames (e : Expr) : Result (List String) :=
  match e.foreign? with
  | some object => .error (.unanswered object .variableNames)
  | none => .ok e.variableNames

end Expr
end Symbolic
