import Mathlib.Algebra.Field.Rat
import Mathlib.Algebra.GroupWithZero.Basic
import Symbolic.Proofs.CollectValue

/-!
# Unfolding preserves values

The terms of a sum add up to the value of the tree, and the factors of a product
multiply to it, for every way of giving trees a value that reads the nodes of
the chain as usual.  What is no such node may have any value.

Differences and quotients are allowed, under two conditions.  Where one is the
right operand of another, its own operands reach no further one, since a single
flag says which way up an operand is seen.  And no operand of a quotient is a
constant, since the reciprocal of a constant is computed.
-/

namespace Symbolic

/-- Every node of the tree satisfies a predicate. -/
def Expr.EveryNode (holds : Operation -> Expr -> Expr -> Prop) : Expr -> Prop
  | node operation left right =>
    holds operation left right ∧ left.EveryNode holds ∧ right.EveryNode holds
  | wrap inner => inner.EveryNode holds
  | _ => True

/-- An operation that is the same as one of arithmetic is that one.  Others may
share its id or its symbol. -/
def Operation.IsGenuine (operation : Operation) : Prop :=
  ∀ other ∈ arithmetic, operation.isSame other = true -> operation = other

theorem Operation.isGenuine_of_mem_arithmetic
    {operation : Operation}
    (member : operation ∈ arithmetic) :
    operation.IsGenuine := by
  intro other otherMember same
  rcases mem_arithmetic_iff.1 member with rfl | rfl | rfl | rfl | rfl <;>
    rcases mem_arithmetic_iff.1 otherMember with rfl | rfl | rfl | rfl | rfl <;>
    first | rfl | exact absurd same (by decide)

/-- Values of trees in a commutative ring: integers, sums, differences and
products are read as usual, and a wrapper as what it encloses.  The operations
of the chain are known by their ids. -/
structure IsRingValuation {R : Type*} [CommRing R] (value : Expr ->
    R) : Prop where
  int : ∀ n : Int, value (.int n) = n
  sum : ∀ operation left right, operation.id = Operation.sum.id ->
    value (.node operation left right) = value left + value right
  difference : ∀ operation left right, operation.id = Operation.difference.id ->
    value (.node operation left right) = value left - value right
  product :
    ∀ left right, value (.node .product left right) = value left * value right
  wrap : ∀ inner, value (.wrap inner) = value inner

/-- Values of trees in a field: products are read as usual, a quotient as the
product with the inverse, the power with the exponent minus one as the inverse,
and a wrapper as what it encloses. -/
structure IsFieldValuation {K : Type*} [Field K] (value : Expr ->
    K) : Prop where
  product : ∀ operation left right, operation.id = Operation.product.id ->
    value (.node operation left right) = value left * value right
  quotient : ∀ operation left right, operation.id = Operation.quotient.id ->
    value (.node operation left right) = value left * (value right)⁻¹
  inverse : ∀ base, value (.node .power base (.int (-1))) = (value base)⁻¹
  wrap : ∀ inner, value (.wrap inner) = value inner

theorem IsRingValuation.readsSums
    {R : Type*}
    [CommRing R]
    {value : Expr -> R}
    (valuation : IsRingValuation value) :
    ReadsSums (fun e => e.IsIntegral ∧ e.EveryNode fun operation _ _ =>
      operation.IsGenuine)
      value where
  integral := fun e isGood => isGood.1
  genuine := by
    rintro operation left right ⟨-, genuine, -⟩ same
    rw [genuine .difference (by simp [Operation.arithmetic]) same]
  inner := fun e isGood => isGood
  operands := fun operation left right isGood =>
    ⟨⟨isGood.1.1, isGood.2.2.1⟩, isGood.1.2, isGood.2.2.2⟩
  int := valuation.int
  sum := fun operation left right _ => valuation.sum operation left right
  difference :=
    fun operation left right _ => valuation.difference operation left right
  negated := fun e => by rw [valuation.product, valuation.int]; simp
  wrap := valuation.wrap

/-- The integers under an assignment of the variables are such values. -/
theorem isRingValuation_integerValue (assignment : String -> Int) :
    IsRingValuation (Expr.integerValue assignment) where
  int := fun _ => rfl
  sum := by
    intro operation left right isSum
    simp [Expr.integerValue, Operation.onIntegers, isSum]
  difference := by
    intro operation left right isDifference
    simp [Expr.integerValue, Operation.onIntegers, isDifference, Operation.sum,
      Operation.difference]
  product := fun _ _ => rfl
  wrap := fun _ => rfl

/-- The rational number that a tree of products, quotients and powers stands for
under an assignment of its variables.  Other operations are not read. -/
def Expr.rationalValue (assignment : String -> ℚ) : Expr -> ℚ
  | .const (.int n) => n
  | .var name => assignment name
  | .node operation left right =>
    if operation.id = Operation.product.id then
      left.rationalValue assignment * right.rationalValue assignment
    else if operation.id = Operation.quotient.id then
      left.rationalValue assignment * (right.rationalValue assignment)⁻¹
    else
      match right with
      | .const (.int n) => left.rationalValue assignment ^ n
      | _ => 0
  | .wrap inner => inner.rationalValue assignment
  | _ => 0

theorem isFieldValuation_rationalValue (assignment : String -> ℚ) :
    IsFieldValuation (Expr.rationalValue assignment) where
  product := by
    intro operation left right isProduct
    simp [Expr.rationalValue, isProduct]
  quotient := by
    intro operation left right isQuotient
    simp [Expr.rationalValue, isQuotient, Operation.product, Operation.quotient]
  inverse := fun base => zpow_neg_one (base.rationalValue assignment)
  wrap := fun _ => rfl

/-- The trees whose products can be opened: no operand of a quotient is a
constant. -/
structure Expr.IsInvertible (e : Expr) : Prop where
  integral : e.IsIntegral
  genuine : e.EveryNode fun operation _ _ => operation.IsGenuine
  noConstant : e.EveryNode fun operation left right =>
    operation.id = Operation.quotient.id ->
      left.isConst = false ∧ right.isConst = false

theorem IsFieldValuation.readsChain
    {K : Type*}
    [Field K]
    {value : Expr -> K}
    (valuation : IsFieldValuation value) :
    ReadsChain .product .division Expr.IsInvertible value where
  different := by decide
  noBlank := fun isGood => isGood.integral
  noForeign := fun _ isGood => isGood.integral
  inner := fun e isGood =>
    ⟨⟨isGood.integral, isGood.genuine, isGood.noConstant⟩, valuation.wrap e⟩
  operands := fun operation left right isGood _ =>
    ⟨⟨isGood.integral.1, isGood.genuine.2.1, isGood.noConstant.2.1⟩,
      isGood.integral.2, isGood.genuine.2.2, isGood.noConstant.2.2⟩
  focused :=
    fun operation left right _ => valuation.product operation left right
  inverted := by
    intro operation left right _ isQuotient
    rw [valuation.quotient operation left right isQuotient, div_eq_mul_inv]
  transformed := by
    intro operation left right e isGood isQuotient isOperand
    obtain ⟨leftConst, rightConst⟩ := isGood.noConstant.1 isQuotient
    have operandGood : e.isConst = false ∧
        e.EveryNode fun operation _ _ => operation.IsGenuine := by
      rcases isOperand with rfl | rfl
      · exact ⟨leftConst, isGood.genuine.2.1⟩
      · exact ⟨rightConst, isGood.genuine.2.2⟩
    rcases Transform.invertFactor_cases operandGood.1 with
      ⟨operation', first, second, rfl, same, kept⟩ | inverted
    · left
      refine ⟨?_, kept⟩
      rw [operandGood.2.1 .quotient (by simp [Operation.arithmetic]) same]
      rfl
    · refine .inr ⟨_, inverted, fun upright => ?_, valuation.inverse e⟩
      exact openChain_other (by decide) (by rintro _ ⟨⟩; decide)

/-- Unfolding preserves values.  In every commutative ring the terms of a sum
add up to the value of the tree, and in every field the factors of a product
multiply to it: for all trees without blanks and doubles in which no difference,
or quotient, turns an operand over more than once, and for products if no
operand of a quotient is a constant.  Unfolding returns these terms and notes
nothing. -/
theorem chainTerms_value.{u} :
    (∀ {R : Type u} [CommRing R] (value : Expr -> R), IsRingValuation value ->
      ∀ e : Expr, e.IsIntegral ->
        (e.EveryNode fun operation _ _ => operation.IsGenuine) ->
        e.turnsOnceUnder .sum .difference = true ->
          ∃ terms, (∀ memory, (chainTerms .standard .sum e).outcome memory =
            (.ok terms, memory)) ∧
            (terms.map value).sum = value e) ∧
    (∀ {K : Type u} [Field K] (value : Expr -> K), IsFieldValuation value ->
      ∀ e : Expr, e.IsIntegral ->
        (e.EveryNode fun operation _ _ => operation.IsGenuine) ->
        e.turnsOnceUnder .product .quotient = true ->
        (e.EveryNode fun operation left right =>
          operation.id = Operation.quotient.id ->
          left.isConst = false ∧ right.isConst = false) ->
          ∃ terms,
            (∀ memory, (chainTerms .standard .product e).outcome memory =
              (.ok terms, memory)) ∧
            (terms.map value).prod = value e) := by
  constructor
  · intro R _ value valuation e integral genuine once
    obtain ⟨terms, opened, total⟩ :=
      valuation.readsSums.exists_terms ⟨integral, genuine⟩ once
    refine ⟨terms, fun memory => ?_, total⟩
    rw [chainTerms_sum, opened, Work.outcome_lift]
  · intro K _ value valuation e integral genuine once noConstant
    obtain ⟨terms, opened, total⟩ :=
      valuation.readsChain.opens ⟨integral, genuine, noConstant⟩ once
    refine ⟨terms, fun memory => ?_, total⟩
    rw [chainTerms_product, opened, Work.outcome_lift]

/-- The terms of `x - (y - 3)` add up to 8 and the factors of `x / (y / z)`
multiply to 35/2 where `x` is 7, `y` is 2 and `z` is 5. -/
theorem chainTerms_value_turned :
    (∃ terms,
      (∀ memory, (chainTerms .standard .sum (.node .difference (.var "x")
          (.node .difference (.var "y") (.int 3)))).outcome memory =
            (.ok terms, memory)) ∧
        (terms.map (Expr.integerValue fun name =>
          if name = "x" then 7 else 2)).sum = 8) ∧
    ∃ terms,
      (∀ memory, (chainTerms .standard .product (.node .quotient (.var "x")
          (.node .quotient (.var "y") (.var "z")))).outcome memory =
            (.ok terms, memory)) ∧
        (terms.map (Expr.rationalValue fun name =>
          if name = "x" then 7 else if name = "y" then 2 else 5)).prod =
            35 / 2 := by
  have difference : Operation.difference.IsGenuine :=
    Operation.isGenuine_of_mem_arithmetic (by simp [Operation.arithmetic])
  have quotient : Operation.quotient.IsGenuine :=
    Operation.isGenuine_of_mem_arithmetic (by simp [Operation.arithmetic])
  constructor
  · obtain ⟨terms, returned, total⟩ := chainTerms_value.1 _
      (isRingValuation_integerValue fun name => if name = "x" then 7 else 2)
      (.node .difference (.var "x") (.node .difference (.var "y") (.int 3)))
      ⟨trivial, trivial, trivial⟩ ⟨difference, trivial, difference, trivial,
        trivial⟩ rfl
    exact ⟨terms, returned, total.trans (by decide)⟩
  · obtain ⟨terms, returned, total⟩ := chainTerms_value.2 _
      (isFieldValuation_rationalValue fun name =>
        if name = "x" then 7 else if name = "y" then 2 else 5)
      (.node .quotient (.var "x") (.node .quotient (.var "y") (.var "z")))
      ⟨trivial, trivial, trivial⟩ ⟨quotient, trivial, quotient, trivial,
        trivial⟩ rfl
      ⟨fun _ => ⟨rfl, rfl⟩, trivial, fun _ => ⟨rfl, rfl⟩, trivial, trivial⟩
    refine ⟨terms, returned, total.trans ?_⟩
    change (7 : ℚ) * (2 * 5⁻¹)⁻¹ = 35 / 2
    norm_num

end Symbolic
