import Symbolic.Operation

/-!
# Expression trees

Trees are built from blanks, constants, variables and nodes of two operands
under an operation.  A wrapper encloses one operand without an operation and
means the same as that operand.  A foreign object is something that is no
operand at all; every function that meets one refuses it.
-/

namespace Symbolic

/-- An object that is no operand, known by the name of its kind and by its two
texts, the plain one and the one between quotes where it needs them. -/
structure Foreign where
  kind : String
  text : String
  form : String

/-- An expression tree. -/
inductive Expr where
  | blank
  | const (value : Number)
  | var (name : String)
  | node (operation : Operation) (left right : Expr)
  | wrap (inner : Expr)
  | foreign (object : Foreign)

namespace Expr

/-- An integer constant. -/
abbrev int (value : Int) : Expr :=
  const (.int value)

/-- The tree without the wrappers around its root. -/
def unwrap : Expr -> Expr
  | wrap inner => inner.unwrap
  | e => e

/-- The tree is a constant. -/
def isConst : Expr -> Bool
  | const _ => true
  | _ => false

/-- The tree is a blank. -/
def isBlank : Expr -> Bool
  | blank => true
  | _ => false

/-- The tree is a variable. -/
def isVar : Expr -> Bool
  | var _ => true
  | _ => false

/-- The tree is a node or a wrapper. -/
def isCompound : Expr -> Bool
  | node _ _ _ => true
  | wrap _ => true
  | _ => false

/-- The tree is a wrapper. -/
def isWrap : Expr -> Bool
  | wrap _ => true
  | _ => false

/-- The tree is a constant equal to zero. -/
def isZero : Expr -> Bool
  | const value => value.isZero
  | _ => false

/-- The tree is a constant equal to one. -/
def isOne : Expr -> Bool
  | const value => value.isOne
  | _ => false

/-- Every leaf of the tree is a constant. -/
def hasOnlyConstants : Expr -> Bool
  | const _ => true
  | node _ left right => left.hasOnlyConstants && right.hasOnlyConstants
  | wrap inner => inner.hasOnlyConstants
  | _ => false

/-- The first foreign object of the tree, from left to right. -/
def foreign? : Expr -> Option Foreign
  | foreign object => some object
  | node _ left right => left.foreign?.or right.foreign?
  | wrap inner => inner.foreign?
  | _ => none

/-- The names of the variables of the tree, from left to right, with
repetitions. -/
def names : Expr -> List String
  | var name => [name]
  | node _ left right => left.names ++ right.names
  | wrap inner => inner.names
  | _ => []

/-- All wrappers are taken off, not only the first. -/
@[simp] theorem unwrap_wrap (inner : Expr) :
    (wrap inner).unwrap = inner.unwrap := rfl

@[simp] theorem isConst_const (value : Number) :
    (const value).isConst = true := rfl

@[simp] theorem names_var (name : String) : (var name).names = [name] := rfl

/-- The names of a grouping are those of its operands, with repetitions. -/
@[simp] theorem names_node
    (operation : Operation)
    (left right : Expr) :
    (node operation left right).names = left.names ++ right.names := rfl

@[simp] theorem names_wrap (inner : Expr) :
    (wrap inner).names = inner.names := rfl

end Expr
end Symbolic
