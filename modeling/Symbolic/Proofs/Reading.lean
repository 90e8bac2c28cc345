import Mathlib.Algebra.Ring.Int.Defs
import Mathlib.Data.Int.Cast.Basic
import Symbolic.Proofs.Equality
import Symbolic.Registry.Basic

/-!
# Readings of trees in a ring

A reading gives every tree a value in a commutative ring.  It reads integers,
sums, differences and products as usual and a wrapper as what it encloses; what
it makes of all other trees is its own affair.  The facts about chains are
proved for all readings at once.

The integer values of trees under an assignment of the variables form such a
reading, which in addition reads powers.
-/

namespace Symbolic

namespace Expr

/-- Every operation of the tree is one of the given ones. -/
def Over (operations : List Operation) : Expr -> Prop
  | node operation left right =>
    operation ∈ operations ∧ left.Over operations ∧ right.Over operations
  | wrap inner => inner.Over operations
  | _ => True

theorem Over.mono
    {operations operations' : List Operation}
    (subset : ∀ operation ∈ operations, operation ∈ operations')
    {e : Expr}
    (isOver : e.Over operations) :
    e.Over operations' := by
  induction e with
  | node operation left right leftStep rightStep =>
    obtain ⟨member, overLeft, overRight⟩ := isOver
    exact ⟨subset operation member, leftStep overLeft, rightStep overRight⟩
  | wrap inner inductive_step => exact inductive_step isOver
  | _ => trivial

/-- The tree has neither blanks nor doubles nor foreign objects: all its leaves
are integers and variables. -/
def IsIntegral : Expr -> Prop
  | const (.int _) => True
  | var _ => True
  | node _ left right => left.IsIntegral ∧ right.IsIntegral
  | wrap inner => inner.IsIntegral
  | _ => False

end Expr

namespace Operation

theorem mem_arithmetic_iff
    {operation : Operation} :
    operation ∈ arithmetic ↔ operation = sum ∨ operation = difference ∨
      operation = product ∨
      operation = quotient ∨ operation = power := by
  simp [arithmetic]

/-- Among the operations of arithmetic, the id determines the operation. -/
theorem eq_of_id_eq
    {left right : Operation}
    (leftMember : left ∈ arithmetic)
    (rightMember : right ∈ arithmetic)
    (sameId : left.id = right.id) :
    left = right := by
  rcases mem_arithmetic_iff.1 leftMember with rfl | rfl | rfl | rfl | rfl <;>
    rcases mem_arithmetic_iff.1 rightMember with rfl | rfl | rfl | rfl | rfl <;>
    first | rfl | exact absurd sameId (by decide)

/-- What an operation does to integers.  Powers are read with natural exponents,
and operations other than sums, differences, products and powers are not
read. -/
def onIntegers (operation : Operation) (a b : Int) : Int :=
  if operation.id = sum.id then a + b
  else if operation.id = difference.id then a - b
  else if operation.id = product.id then a * b
  else if operation.id = power.id then a ^ b.toNat
  else 0

end Operation

/-- Up to wrappers, equal trees of arithmetic are the same. -/
theorem Expr.stripped_eq_of_equal
    {a b : Expr}
    (aOver : a.Over Operation.arithmetic)
    (bOver : b.Over Operation.arithmetic)
    (equal : a.equal b = .ok true) :
    a.stripped = b.stripped := by
  have unwrapped (e : Expr) : e.unwrap.stripped = e.stripped :=
    apply_unwrap (fun _ => rfl) e
  have overUnwrapped (e : Expr) :
      e.unwrap.Over Operation.arithmetic = e.Over Operation.arithmetic :=
    apply_unwrap (fun _ => rfl) e
  induction a generalizing b with
  | wrap inner inductive_step => exact inductive_step aOver bOver equal
  | node operation left right leftStep rightStep =>
    obtain ⟨operation', left', right', isNode, sameId, leftEqual, rightEqual⟩ :=
      exists_node_of_equal equal
    rw [← overUnwrapped, isNode] at bOver
    rw [← unwrapped b, isNode, stripped, stripped,
      leftStep aOver.2.1 bOver.2.1 leftEqual,
      rightStep aOver.2.2 bOver.2.2 rightEqual,
        Operation.eq_of_id_eq aOver.1 bOver.1 sameId]
  | _ => rw [← unwrapped b, unwrap_eq_of_equal rfl equal]

/-- A reading of trees in a commutative ring. -/
structure Reading (R : Type*) [CommRing R] where
  /-- The value of a tree. -/
  value : Expr -> R
  value_int : ∀ n : Int, value (.int n) = n
  value_sum :
    ∀ left right, value (.node .sum left right) = value left + value right
  value_difference :
    ∀ left right, value (.node .difference left right) =
      value left - value right
  value_product :
    ∀ left right, value (.node .product left right) = value left * value right
  value_wrap : ∀ inner, value (.wrap inner) = value inner

attribute [simp] Reading.value_int Reading.value_sum Reading.value_difference
  Reading.value_product Reading.value_wrap

/-- The reading gives equal trees the same value. -/
def Reading.Respects {R : Type*} [CommRing R] (reading : Reading R) : Prop :=
  ∀ a b, a.equal b = .ok true -> reading.value a = reading.value b

/-- The reading gives equal trees of a class the same value. -/
def Reading.RespectsOn
    {R : Type*}
    [CommRing R]
    (reading : Reading R)
    (good : Expr -> Prop) : Prop :=
  ∀ a b, good a -> good b -> a.equal b = .ok true ->
    reading.value a = reading.value b

namespace Reading

variable {R : Type*} [CommRing R] (reading : Reading R) {e : Expr}

theorem value_of_isZero
    (integral : e.IsIntegral)
    (isZero : e.isZero = true) :
    reading.value e = 0 := by
  match e, integral, isZero with
  | .const (.int n), _, isZero =>
    obtain rfl : n = 0 := by simpa [Expr.isZero] using isZero
    simp

theorem value_of_isOne
    (integral : e.IsIntegral)
    (isOne : e.isOne = true) :
    reading.value e = 1 := by
  match e, integral, isOne with
  | .const (.int n), _, isOne =>
    obtain rfl : n = 1 := by simpa [Expr.isOne] using isOne
    simp

end Reading

/-- The integer that a tree stands for under an assignment of its variables. -/
def Expr.integerValue (assignment : String -> Int) : Expr -> Int
  | .const (.int n) => n
  | .var name => assignment name
  | .node operation left right =>
    operation.onIntegers (left.integerValue assignment)
      (right.integerValue assignment)
  | .wrap inner => inner.integerValue assignment
  | _ => 0

/-- Integer values as a reading. -/
def Reading.integers (assignment : String -> Int) : Reading Int where
  value := Expr.integerValue assignment
  value_int := fun _ => rfl
  value_sum := fun _ _ => rfl
  value_difference := fun _ _ => rfl
  value_product := fun _ _ => rfl
  value_wrap := fun _ => rfl

namespace Reading

variable (assignment : String -> Int)

@[simp] theorem integers_value (e : Expr) :
    (integers assignment).value e = e.integerValue assignment := rfl

theorem integers_respects : (integers assignment).Respects := by
  intro a b equal
  refine Expr.congr_of_equal (f := Expr.integerValue assignment)
    (fun _ => rfl) ?_ equal
  intro operation operation' left left' right right' sameId sameLeft sameRight
  simp only [Expr.integerValue, Operation.onIntegers, sameId, sameLeft,
    sameRight]

@[simp] theorem integers_power (base : Expr) (n : Int) :
    (Expr.node .power base (.int n)).integerValue assignment =
      base.integerValue assignment ^ n.toNat := rfl

end Reading
end Symbolic
