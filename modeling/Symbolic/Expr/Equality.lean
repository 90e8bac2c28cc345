import Symbolic.Error

/-!
# Equality of trees

Trees are equal when they agree up to wrappers: constants of the same kind with
the same value, variables with the same name, and nodes whose operations
have the same id and whose operands are equal.  Operands are compared from left
to right and the first difference decides, so a foreign object is only met when
everything to its left agrees.
-/

namespace Symbolic
namespace Expr

/-- Two leaves are never equal if they are of different kinds, but a foreign
object is refused. -/
def unequalTo : Expr -> Result Bool
  | foreign object => .error (.unknownOperand .comparison object)
  | _ => .ok false

/-- Equality of trees up to wrappers. -/
def equal : Expr -> Expr -> Result Bool
  | wrap inner, other => inner.equal other
  | node operation left right, other =>
    match other.unwrap with
    | node operation' left' right' =>
      if operation.id = operation'.id then do
        if ← left.equal left' then right.equal right' else pure false
      else .ok false
    | e => e.unequalTo
  | const value, other =>
    match other.unwrap with
    | const value' => .ok (value.same value')
    | e => e.unequalTo
  | var name, other =>
    match other.unwrap with
    | var name' => .ok (name == name')
    | e => e.unequalTo
  | blank, other =>
    match other.unwrap with
    | blank => .ok true
    | e => e.unequalTo
  | foreign object, _ => .error (.unknownOperand .comparison object)

/-- A wrapper is compared as what it encloses. -/
@[simp] theorem equal_wrap
    (inner other : Expr) :
    (wrap inner).equal other = inner.equal other := rfl

/-- Below its root, a node is compared with the other tree without the wrappers
around it. -/
theorem equal_node
    (operation : Operation)
    (left right other : Expr) :
    (node operation left right).equal other =
      match other.unwrap with
      | node operation' left' right' =>
        if operation.id = operation'.id then do
          if ← left.equal left' then right.equal right' else pure false
        else .ok false
      | e => e.unequalTo := rfl

/-- A constant is compared with the other tree without the wrappers around
it. -/
theorem equal_const
    (value : Number)
    (other : Expr) :
    (const value).equal other =
      match other.unwrap with
      | const value' => .ok (value.same value')
      | e => e.unequalTo := rfl

/-- So is a variable. -/
theorem equal_var
    (name : String)
    (other : Expr) :
    (var name).equal other =
      match other.unwrap with
      | var name' => .ok (name == name')
      | e => e.unequalTo := rfl

/-- A blank is equal to a blank in wrappers and to nothing else. -/
theorem equal_blank (other : Expr) :
    blank.equal other =
      match other.unwrap with
      | blank => .ok true
      | e => e.unequalTo := rfl

end Expr

namespace Argument

/-- The number that a bare value counts as when bare values are compared. -/
def bareNumber? : Argument -> Option Number
  | int value => some (.int value)
  | real value => some (.real value)
  | truth value => some (.int (if value then 1 else 0))
  | _ => none

/-- Equality of bare values: numbers by their exact values, texts by their
characters. -/
def bareEqual (left right : Argument) : Bool :=
  match left, right with
  | text a, text b => a == b
  | _, _ =>
    match left.bareNumber?, right.bareNumber? with
    | some (.real x), some (.real y) => x == y
    | some a, some b =>
      !a.lessThan b && !b.lessThan a && !Decimal.isUndefined a.toDouble &&
        !Decimal.isUndefined b.toDouble
    | _, _ => false

/-- Equality of arguments.  A tree never equals a bare value or a foreign
object. -/
def equal : Argument -> Argument -> Result Bool
  | tree (.foreign a), tree (.foreign b) => .ok (a.form == b.form)
  | tree (.foreign _), _ => .ok false
  | _, tree (.foreign _) => .ok false
  | tree a, tree b => a.equal b
  | tree _, _ => .ok false
  | _, tree _ => .ok false
  | left, right => .ok (left.bareEqual right)

end Argument
end Symbolic
