import Symbolic.Error

/-!
# Fingerprints

The fingerprint of a tree is a flat list of integers: constants by their token,
variables by the code points of their names, nodes by the id of the
operation in front of both operands.  Blanks and wrappers leave no token.
Different trees can have the same fingerprint; equality of trees is decided by
`Expr.equal`.
-/

namespace Symbolic

/-- A flat code of a tree. -/
abbrev Fingerprint := List Int

namespace Expr

/-- The tokens of a tree from left to right, operations in front. -/
def tokens : Expr -> Fingerprint
  | blank => []
  | const value => [value.token]
  | var name => name.toList.map fun c => (c.toNat : Int)
  | node operation left right => operation.id :: (left.tokens ++ right.tokens)
  | wrap inner => inner.tokens
  | foreign _ => []

/-- The fingerprint of a tree, which a foreign object anywhere in it
prevents. -/
def fingerprint (e : Expr) : Result Fingerprint :=
  match e.foreign? with
  | some object => .error (.unknownOperand .fingerprinting object)
  | none => .ok e.tokens

@[simp] theorem tokens_const (value : Number) :
    (const value).tokens = [value.token] := rfl

@[simp] theorem tokens_node
    (operation : Operation)
    (left right : Expr) :
    (node operation left right).tokens =
      operation.id :: (left.tokens ++ right.tokens) := rfl

@[simp] theorem tokens_wrap (inner : Expr) :
    (wrap inner).tokens = inner.tokens := rfl

/-- A tree without foreign objects has its tokens as fingerprint. -/
theorem fingerprint_eq_ok
    (e : Expr)
    (noForeign : e.foreign? = none) :
    e.fingerprint = .ok e.tokens := by
  simp [fingerprint, noForeign]

/-- A fingerprint is never anything but the tokens of the tree. -/
theorem eq_tokens_of_fingerprint
    {e : Expr}
    {key : Fingerprint}
    (hashed : e.fingerprint = .ok key) :
    key = e.tokens := by
  unfold fingerprint at hashed
  split at hashed
  · cases hashed
  · cases hashed
    rfl

end Expr

namespace Fingerprint

/-- The sum of the magnitudes of all tokens. -/
def weight : Fingerprint -> Nat
  | [] => 0
  | token :: rest => token.natAbs + weight rest

/-- The sum of the differences of two fingerprints, token by token; the tokens
that one of them has in excess count with their magnitudes. -/
def distance : Fingerprint -> Fingerprint -> Nat
  | [], right => weight right
  | left, [] => weight left
  | a :: left, b :: right => (a - b).natAbs + distance left right

/-- All tokens of the other fingerprint are in excess. -/
@[simp] theorem distance_nil_left (right : Fingerprint) :
    distance [] right = weight right := by
  simp [distance]

@[simp] theorem distance_nil_right (left : Fingerprint) :
    distance left [] = weight left := by
  cases left <;> simp [distance]

@[simp] theorem distance_cons
    (a b : Int)
    (left right : Fingerprint) :
    distance (a :: left) (b :: right) = (a - b).natAbs + distance left right :=
      rfl

end Fingerprint
end Symbolic
