import Symbolic.Proofs.ChainReduction
import Symbolic.Proofs.EngineInvariant
import Symbolic.Proofs.Polynomial

/-!
# A pass over a polynomial

Every step of a pass gives a polynomial with the value of its source: the
reduction of a sum or a product, the simplification of operands, the evaluation
of constants and the rules.  No difference is left afterwards.
-/

namespace Symbolic

/-- Powers of integers with natural exponents are exact. -/
theorem Operation.evaluate_power_int
    (m : Int)
    {n : Int}
    (notNegative : 0 ≤ n) :
    power.evaluate (.int m) (.int n) = .ok (.int (m ^ n.toNat)) := by
  have powered :
      power.kernel.exact (.int m) (.int n) = .ok (.int (m ^ n.toNat)) := by
    change Number.pow (.int m) (.int n) = _
    rw [Number.pow, if_pos notNegative, Number.integerPower_eq_pow]
    rfl
  rw [evaluate, powered]

/-- `result` is a polynomial without differences and has the value of `source`.
The results of constants are the constants themselves, so that exponents stay
literal. -/
structure SimplifiesTo
    (assignment : String -> Int)
    (source result : Expr) : Prop where
  polynomial : IsPolynomial False result
  value : result.integerValue assignment = source.integerValue assignment
  literal : source.isConst = true -> result = source

namespace SimplifiesTo

variable {assignment : String -> Int} {e e' result : Expr}

theorem refl (polynomial : IsPolynomial False e) :
    SimplifiesTo assignment e e :=
  ⟨polynomial, rfl, fun _ => rfl⟩

theorem trans
    (first : SimplifiesTo assignment e e')
    (second : SimplifiesTo assignment e' result) :
    SimplifiesTo assignment e result := by
  refine ⟨second.polynomial, second.value.trans first.value, ?_⟩
  intro isConst
  obtain rfl := first.literal isConst
  exact second.literal isConst

/-- A leaf simplifies to itself. -/
theorem leaf
    {differences : Prop}
    (polynomial : IsPolynomial differences e)
    (isLeaf : e.isCompound = false) :
    SimplifiesTo assignment e e := by
  cases polynomial with
  | int n => exact refl (.int n)
  | var name => exact refl (.var name)
  | _ => simp [Expr.isCompound] at isLeaf

end SimplifiesTo

namespace IsPolynomial

variable {assignment : String -> Int}

theorem isDifference_eq_false
    {e : Expr}
    (polynomial : IsPolynomial False e) :
    e.isDifference = false := by
  cases polynomial with
  | difference impossible => exact impossible.elim
  | _ => rfl

/-- Putting simplified operands under an operation again. -/
theorem regroup
    {operation : Operation}
    {left right left' right' : Expr}
    (polynomial : IsPolynomial True (.node operation left right))
    (noDifference : (Expr.node operation left right).isDifference = false)
    (leftSimplified : SimplifiesTo assignment left left')
    (rightSimplified : SimplifiesTo assignment right right') :
    IsPolynomial False (.node operation left' right') ∧
      (Expr.node operation left' right').integerValue assignment =
        (Expr.node operation left right).integerValue assignment := by
  refine ⟨?_, ?_⟩
  · cases polynomial with
    | sum => exact .sum leftSimplified.polynomial rightSimplified.polynomial
    | product =>
      exact .product leftSimplified.polynomial rightSimplified.polynomial
    | power _ positive =>
      obtain rfl := rightSimplified.literal rfl
      exact .power leftSimplified.polynomial positive
    | difference => simp [Expr.isDifference] at noDifference
  · simp only [Expr.integerValue, leftSimplified.value, rightSimplified.value]

/-- Evaluating two constants.  A constant polynomial is an integer, and on
integers the three operations are exact. -/
theorem evaluate
    {operation : Operation}
    {left right value : Expr}
    (polynomial : IsPolynomial False (.node operation left right))
    (areConstants : (left.isConst && right.isConst) = true)
    (evaluated : operation.evaluate left right = .ok value) :
    IsPolynomial False value ∧
      value.integerValue assignment =
        (Expr.node operation left right).integerValue assignment := by
  obtain ⟨leftConst, rightConst⟩ := Bool.and_eq_true_iff.1 areConstants
  have literal {differences : Prop} {e : Expr}
      (polynomial : IsPolynomial differences e)
      (isConst : e.isConst = true) : ∃ n, e = .int n := by
    cases polynomial with
    | int n => exact ⟨n, rfl⟩
    | _ => simp [Expr.isConst] at isConst
  cases polynomial with
  | sum leftPolynomial rightPolynomial =>
    obtain ⟨m, rfl⟩ := literal leftPolynomial leftConst
    obtain ⟨n, rfl⟩ := literal rightPolynomial rightConst
    cases evaluated
    exact ⟨.int (m + n), rfl⟩
  | product leftPolynomial rightPolynomial =>
    obtain ⟨m, rfl⟩ := literal leftPolynomial leftConst
    obtain ⟨n, rfl⟩ := literal rightPolynomial rightConst
    cases evaluated
    exact ⟨.int (m * n), rfl⟩
  | @power base n basePolynomial positive =>
    obtain ⟨m, rfl⟩ := literal basePolynomial leftConst
    rw [Operation.evaluate_power_int m (by omega)] at evaluated
    cases evaluated
    exact ⟨.int _, rfl⟩
  | difference impossible => exact impossible.elim

theorem askZero_eq_ok
    {e : Expr}
    (polynomial : IsPolynomial False e) :
    e.askZero = .ok e.isZero := by
  cases polynomial <;> rfl

theorem askOne_eq_ok
    {e : Expr}
    (polynomial : IsPolynomial False e) :
    e.askOne = .ok e.isOne := by
  cases polynomial <;> rfl

end IsPolynomial

namespace Rules

variable {assignment : String -> Int} {left right ruled : Expr}

/-- The rules for sums keep the value of a polynomial. -/
theorem sum_keeps
    (leftPolynomial : IsPolynomial False left)
    (rightPolynomial : IsPolynomial False right)
    (applied : sum (.node .sum left right) left right = .ok ruled) :
    IsPolynomial False ruled ∧
      ruled.integerValue assignment =
        left.integerValue assignment + right.integerValue assignment := by
  have leftZero :=
    (Reading.integers assignment).value_of_isZero leftPolynomial.integral
  have rightZero :=
    (Reading.integers assignment).value_of_isZero rightPolynomial.integral
  simp only [Reading.integers_value] at leftZero rightZero
  simp only [sum, leftPolynomial.askZero_eq_ok, rightPolynomial.askZero_eq_ok,
    Result.ok_bind] at applied
  split at applied
  · next isZero =>
    cases applied
    exact ⟨leftPolynomial, by rw [rightZero isZero, add_zero]⟩
  · split at applied
    · next isZero =>
      cases applied
      exact ⟨rightPolynomial, by rw [leftZero isZero, zero_add]⟩
    · cases applied
      exact ⟨.sum leftPolynomial rightPolynomial, rfl⟩

/-- So do the rules for products. -/
theorem product_keeps
    (leftPolynomial : IsPolynomial False left)
    (rightPolynomial : IsPolynomial False right)
    (applied : product (.node .product left right) left right = .ok ruled) :
    IsPolynomial False ruled ∧
      ruled.integerValue assignment =
        left.integerValue assignment * right.integerValue assignment := by
  have leftZero :=
    (Reading.integers assignment).value_of_isZero leftPolynomial.integral
  have rightZero :=
    (Reading.integers assignment).value_of_isZero rightPolynomial.integral
  have leftOne :=
    (Reading.integers assignment).value_of_isOne leftPolynomial.integral
  have rightOne :=
    (Reading.integers assignment).value_of_isOne rightPolynomial.integral
  simp only [Reading.integers_value] at leftZero rightZero leftOne rightOne
  simp only [product, leftPolynomial.askZero_eq_ok,
    rightPolynomial.askZero_eq_ok,
    leftPolynomial.askOne_eq_ok, rightPolynomial.askOne_eq_ok, Result.ok_bind]
      at applied
  split at applied
  · next isZero =>
    cases applied
    refine ⟨.int 0, ?_⟩
    rw [leftZero isZero, zero_mul]
    rfl
  · split at applied
    · next isZero =>
      cases applied
      refine ⟨.int 0, ?_⟩
      rw [rightZero isZero, mul_zero]
      rfl
    · split at applied
      · next isOne =>
        cases applied
        exact ⟨leftPolynomial, by rw [rightOne isOne, mul_one]⟩
      · split at applied
        · next isOne =>
          cases applied
          exact ⟨rightPolynomial, by rw [leftOne isOne, one_mul]⟩
        · cases applied
          exact ⟨.product leftPolynomial rightPolynomial, rfl⟩

/-- So do the rules for powers with a positive exponent. -/
theorem power_keeps
    {base : Expr}
    {n : Int}
    (basePolynomial : IsPolynomial False base)
    (positive : 1 ≤ n)
    (applied : power .standard .power base (.int n) = .ok ruled) :
    IsPolynomial False ruled ∧
      ruled.integerValue assignment =
        base.integerValue assignment ^ n.toNat := by
  have baseZero :=
    (Reading.integers assignment).value_of_isZero basePolynomial.integral
  have baseOne :=
    (Reading.integers assignment).value_of_isOne basePolynomial.integral
  simp only [Reading.integers_value] at baseZero baseOne
  have exponentZero : (Expr.int n).askZero = .ok false := by
    have : n ≠ 0 := by omega
    simpa [Expr.askZero, Expr.isZero] using this
  simp only [power, exponentZero, basePolynomial.askZero_eq_ok,
    basePolynomial.askOne_eq_ok,
    (IsPolynomial.int n).askOne_eq_ok, Result.ok_bind, Bool.false_eq_true,
      if_false] at applied
  split at applied
  · next isZero =>
    cases applied
    refine ⟨.int 0, ?_⟩
    rw [baseZero isZero, zero_pow (by omega)]
    rfl
  · split at applied
    · next isOne =>
      cases applied
      refine ⟨.int 1, ?_⟩
      rw [baseOne isOne, one_pow]
      rfl
    · split at applied
      · next isOne =>
        cases applied
        obtain rfl : n = 1 := by simpa [Expr.isOne] using isOne
        exact ⟨basePolynomial, (pow_one _).symm⟩
      · have notNegative : (Number.int n).isNegative = false := by
          simp [Number.isNegative]
          omega
        have kept : negativePower .standard .power base (.int n) =
            .node .power base (.int n) := by
          unfold negativePower
          split
          · next value _ isValue _ =>
            cases isValue
            rw [notNegative]
            rfl
          · rfl
        rw [kept] at applied
        cases applied
        exact ⟨.power basePolynomial positive, rfl⟩

/-- A rule gives a polynomial with the value of the node it is applied to. -/
theorem apply_keeps
    {operation : Operation}
    (polynomial : IsPolynomial False (.node operation left right))
    (applied : apply .standard operation left right = .ok ruled) :
    IsPolynomial False ruled ∧
      ruled.integerValue assignment =
        (Expr.node operation left right).integerValue assignment := by
  cases polynomial with
  | sum leftPolynomial rightPolynomial =>
    exact sum_keeps leftPolynomial rightPolynomial applied
  | product leftPolynomial rightPolynomial =>
    exact product_keeps leftPolynomial rightPolynomial applied
  | power basePolynomial positive =>
    exact power_keeps basePolynomial positive applied
  | difference impossible => exact impossible.elim

end Rules

/-! ## Chains -/

namespace IsPolynomial

variable {assignment : String -> Int} {invariant : Cache -> Prop}
  {settings : Settings}
  (standard : settings.registry = .standard) {recursion : Recursion}
  (recursive : ∀ e, IsPolynomial True e ->
    (recursion e).Keeps invariant (SimplifiesTo assignment e))

include standard recursive

/-- Sums of polynomials are reduced with their value; differences are opened. -/
theorem sumReduction :
    Reduction invariant settings recursion .sum
      (fun e => IsPolynomial True e ∧ e.isDifference = false)
        (fun e => e.isDifference = false)
      (fun terms => (terms.map (Expr.integerValue assignment)).sum) where
  appends := by
    intro first first' second second' sameFirst sameSecond
    rw [List.map_append, List.sum_append, sameFirst, sameSecond,
      List.map_append, List.sum_append]
  reorders := fun terms terms' permuted => (permuted.map _).sum_eq
  constants := by
    intro e isConst
    cases e <;> first | rfl | simp [Expr.isConst] at isConst
  groups := by
    intro left right leftTerm rightTerm
    refine ⟨⟨.sum leftTerm.1 rightTerm.1, rfl⟩, rfl, ?_⟩
    simp only [List.map_cons, List.map_nil, List.sum_cons, List.sum_nil,
      add_zero]
    rfl
  simplifies := by
    intro e isTerm
    refine Work.Keeps.mono (recursive e isTerm.1) fun result simplified => ?_
    have noDifference := simplified.polynomial.isDifference_eq_false
    refine ⟨⟨simplified.polynomial.mono, noDifference⟩, noDifference, ?_⟩
    simp only [List.map_cons, List.map_nil, simplified.value]
  joins := by
    intro terms joined allTerms isJoined
    have polynomials : SumClass (IsPolynomial True) := sumClass
    obtain ⟨joinedPolynomial, joinedValue⟩ :=
      (Reading.integers assignment).value_joinAll_sum
      polynomials.joinClosed_sum
      (fun e member => (allTerms e member).1) isJoined
    have noDifference : joined.isDifference = false := by
      rcases isDifference_of_joinAll (by decide) isJoined with
        rfl | noDifference
      · exact (allTerms joined List.mem_cons_self).2
      · exact noDifference
    refine ⟨⟨joinedPolynomial, noDifference⟩, .inr noDifference, ?_⟩
    rw [List.map_singleton, List.sum_singleton]
    exact joinedValue
  collects := by
    intro terms _ allTerms
    refine Work.Keeps.mono (sumClass.collect_keeps (Reading.integers assignment)
      (fun a b _ _ => Reading.integers_respects assignment a b) standard
        (fun e => e.isDifference = false)
      (fun _ _ => rfl) rfl allTerms) ?_
    rintro collected ⟨notEmpty, allCollected, sameValue⟩
    refine ⟨notEmpty, allCollected, ?_, sameValue⟩
    rintro e rfl
    exact (allCollected e List.mem_cons_self).2

/-- Products of polynomials are reduced with their value. -/
theorem productReduction :
    Reduction invariant settings recursion .product (IsPolynomial True)
      (fun e => e.isDifference = false)
      (fun terms => (terms.map (Expr.integerValue assignment)).prod) where
  appends := by
    intro first first' second second' sameFirst sameSecond
    rw [List.map_append, List.prod_append, sameFirst, sameSecond,
      List.map_append, List.prod_append]
  reorders := fun terms terms' permuted => (permuted.map _).prod_eq
  constants := by
    intro e isConst
    cases e <;> first | rfl | simp [Expr.isConst] at isConst
  groups := by
    intro left right leftTerm rightTerm
    refine ⟨.product leftTerm rightTerm, rfl, ?_⟩
    simp only [List.map_cons, List.map_nil, List.prod_cons, List.prod_nil,
      mul_one]
    rfl
  simplifies := by
    intro e isTerm
    refine Work.Keeps.mono (recursive e isTerm) fun result simplified => ?_
    refine ⟨simplified.polynomial.mono,
      simplified.polynomial.isDifference_eq_false, ?_⟩
    simp only [List.map_cons, List.map_nil, simplified.value]
  joins := by
    intro terms joined allTerms isJoined
    have polynomials : SumClass (IsPolynomial True) := sumClass
    obtain ⟨joinedPolynomial, joinedValue⟩ :=
      (Reading.integers assignment).value_joinAll_product
      polynomials.joinClosed_product allTerms isJoined
    refine ⟨joinedPolynomial, isDifference_of_joinAll (by decide) isJoined, ?_⟩
    rw [List.map_singleton, List.prod_singleton]
    exact joinedValue
  collects := by
    intro terms several allTerms
    have literals (n : Int) :
        (recursion (.int n)).Keeps invariant fun result => result = .int n :=
      Work.Keeps.mono (recursive (.int n) (.int n)) fun _ simplified =>
        simplified.literal rfl
    refine Work.Keeps.mono
      (collect_product_keeps standard literals assignment several allTerms) ?_
    rintro collected ⟨notEmpty, allCollected, lone, sameValue⟩
    refine ⟨notEmpty, allCollected, ?_, sameValue⟩
    intro e isLone
    have wide := lone e isLone
    cases allCollected e (by rw [isLone]; exact List.mem_cons_self) with
    | difference =>
      simp [Expr.width, Operation.difference, Operation.power] at wide
    | _ => rfl

/-- Reducing the chain of a sum or a difference. -/
theorem reduceChain_sum_keeps
    {source : Expr}
    (polynomial : IsPolynomial True source) :
    (Pass.reduceChain settings recursion .sum source).Keeps invariant
      fun result =>
      IsPolynomial True result ∧ result.isDifference = false ∧
        result.integerValue assignment = source.integerValue assignment := by
  have opens : (chainTerms settings.registry .sum source).Keeps invariant
      fun terms =>
      terms ≠ [] ∧ (∀ e ∈ terms, IsPolynomial True e ∧ e.isDifference = false) ∧
        (terms.map (Expr.integerValue assignment)).sum =
          source.integerValue assignment := by
    rw [standard, chainTerms_sum]
    refine Work.Keeps.lift fun terms opened => ?_
    refine ⟨openChain_ne_nil polynomial.integral opened,
      polynomial.forall_terms opened, ?_⟩
    exact (Reading.integers assignment).sum_openChain
      (polynomial.isOver.mono fun _ => Operation.mem_arithmetic_of_mem_integral)
      polynomial.integral polynomial.turnsOnce opened
  refine Work.Keeps.mono
    ((sumReduction standard recursive).reduceChain_keeps opens) ?_
  rintro result ⟨⟨resultPolynomial, -⟩, noDifference, sameValue⟩
  exact ⟨resultPolynomial, noDifference, by simpa using sameValue⟩

/-- Reducing the chain of a product. -/
theorem reduceChain_product_keeps
    {source : Expr}
    (polynomial : IsPolynomial True source) :
    (Pass.reduceChain settings recursion .product source).Keeps invariant
      fun result =>
      IsPolynomial True result ∧ result.isDifference = false ∧
        result.integerValue assignment = source.integerValue assignment := by
  have opens : (chainTerms settings.registry .product source).Keeps invariant
      fun terms =>
      terms ≠ [] ∧ (∀ e ∈ terms, IsPolynomial True e) ∧
        (terms.map (Expr.integerValue assignment)).prod =
          source.integerValue assignment := by
    rw [standard, chainTerms_product]
    refine Work.Keeps.lift fun terms opened => ?_
    refine ⟨openChain_ne_nil polynomial.integral opened,
      IsPolynomial.sumClass.forall_factors polynomial opened, ?_⟩
    exact (Reading.integers assignment).prod_openChain polynomial.isOver
      polynomial.integral opened
  refine Work.Keeps.mono
    ((productReduction standard recursive).reduceChain_keeps opens) ?_
  rintro result ⟨resultPolynomial, noDifference, sameValue⟩
  exact ⟨resultPolynomial, noDifference, by simpa using sameValue⟩

end IsPolynomial
end Symbolic
