import Mathlib.Algebra.GroupWithZero.Basic
import Symbolic.Proofs.NestingLevels
import Symbolic.Proofs.PlainChains
import Symbolic.Proofs.TreeClass
import Symbolic.Proofs.UnfoldedValue

/-!
# Collecting preserves values

The collected terms of a sum add up to what the terms add up to, and those of a
product multiply to what the terms multiply to.  In both cases collecting
returns: no step of it fails.

A sum may be valued in any commutative ring, and its powers may have any values
as long as equal powers have the same one.  A product is valued in a field.  Its
terms are powers with integers as exponents, or no powers, and nothing that is
taken to a power may be zero, since exponents are added and divided.
-/

namespace Symbolic

namespace StandardChain

variable {focus promoted : Operation} {inverse : Inverse} {unit : Int}
  (chain : StandardChain focus promoted inverse unit)

include chain

/-- If collecting preserves an amount and no step of it fails, it returns terms
with the same amount. -/
theorem exists_collect
    {M : Type*}
    {settings : Settings}
    (standard : settings.registry = .standard)
    {recursion : Recursion}
    {good isCoefficient : Expr -> Prop}
    {total : List Expr -> M}
    {account : Expr -> Expr -> List Expr -> M}
    (accounting : Accounting
      (fun _ => True) settings recursion ⟨promoted, .sum⟩ good
      isCoefficient total account)
    (collects : Collects (fun _ => True)
      (fun _ => False) settings recursion ⟨promoted, .sum⟩ good isCoefficient)
    (comparable : ∀ e, good e -> e.foreign? = none)
    (unitGood : good (.int unit))
    (unitTotal : total [.int unit] = total [])
    {terms : List Expr}
    (present : terms ≠ [])
    (allGood : ∀ term ∈ terms, good term)
    (memory : Memory) :
    ∃ collected, ((collect settings recursion focus terms).outcome memory).1 =
      .ok collected ∧
      total collected = total terms := by
  have promotes : settings.registry.promotion? focus = some promoted := by
    rw [standard]
    cases chain <;> rfl
  have adds : settings.registry.additive = some .sum := by
    rw [standard]
    rfl
  have identifies : settings.registry.identity? focus = some (.int unit) := by
    rw [standard]
    cases chain <;> rfl
  have different : promoted.id ≠ focus.id := by
    cases chain <;> decide
  have ends : (collect settings recursion focus terms).Ends (fun _ => True)
      (fun _ => False) fun collected => ∀ term ∈ collected, good term := by
    have registered : ∀ promoted' additive,
        settings.registry.promotion? focus = some promoted' ->
        settings.registry.additive = some additive -> promoted'.id ≠ focus.id ->
          Collects (fun _ => True)
            (fun _ => False) settings recursion ⟨promoted', additive⟩ good
            isCoefficient := by
      intro promoted' additive isPromotion isAdditive _
      cases promotes.symm.trans isPromotion
      cases adds.symm.trans isAdditive
      exact collects
    refine Collects.collect_ends registered comparable
      (fun value isIdentity => ?_) present allGood
    cases identifies.symm.trans isIdentity
    exact unitGood
  obtain ⟨collected, returned, -⟩ : ∃ collected,
      ((collect settings recursion focus terms).outcome memory).1 =
        .ok collected ∧
        ∀ term ∈ collected, good term := ends.exists_ok trivial
  have keeps := accounting.collect_keeps (.int unit) promotes adds different
    identifies unitGood unitTotal.trans allGood
  exact ⟨collected, returned, ((keeps memory trivial).2 collected returned).2.2⟩

end StandardChain

/-! ## Sums -/

/-- Powers that are equal have the same value. -/
def PowersAlike {R : Type*} (value : Expr -> R) : Prop :=
  ∀ base exponent base' exponent',
    (Expr.node .power base exponent).equal (.node .power base' exponent') =
      .ok true ->
      value (.node .power base exponent) = value (.node .power base' exponent')

/-- A valuation in a ring as a reading. -/
def IsRingValuation.reading
    {R : Type*}
    [CommRing R]
    {value : Expr -> R}
    (valuation : IsRingValuation value) : Reading R where
  value := value
  value_int := valuation.int
  value_sum := fun left right => valuation.sum .sum left right rfl
  value_difference :=
    fun left right => valuation.difference .difference left right rfl
  value_product := valuation.product
  value_wrap := valuation.wrap

/-- The values of all equal trees are the same if those of equal powers are. -/
theorem IsRingValuation.respectsOn
    {R : Type*}
    [CommRing R]
    {value : Expr -> R}
    (valuation : IsRingValuation value)
    (alike : PowersAlike value) :
    valuation.reading.RespectsOn (Expr.Over Operation.integral) := by
  intro a b aOver bOver equal
  change value a = value b
  have ignoresWrappers (e : Expr) : value e.unwrap = value e :=
    Expr.apply_unwrap valuation.wrap e
  have sameOver (e : Expr) :
      e.unwrap.Over Operation.integral = e.Over Operation.integral :=
    Expr.apply_unwrap (fun _ => rfl) e
  induction a generalizing b with
  | wrap inner inductive_step =>
    rw [valuation.wrap]
    exact inductive_step b aOver bOver equal
  | node operation left right leftStep rightStep =>
    obtain ⟨operation', left', right', unwrapped, sameId, leftEqual,
        rightEqual⟩ :=
      Expr.exists_node_of_equal equal
    rw [← sameOver, unwrapped] at bOver
    obtain ⟨member, leftOver, rightOver⟩ := aOver
    obtain ⟨member', leftOver', rightOver'⟩ := bOver
    obtain rfl : operation = operation' :=
      Operation.eq_of_id_eq (Operation.mem_arithmetic_of_mem_integral member)
        (Operation.mem_arithmetic_of_mem_integral member') sameId
    have sameLeft := leftStep left' leftOver leftOver' leftEqual
    have sameRight := rightStep right' rightOver rightOver' rightEqual
    rw [← ignoresWrappers b, unwrapped]
    simp only [Operation.integral, List.mem_cons, List.not_mem_nil, or_false]
      at member
    rcases member with rfl | rfl | rfl | rfl
    · rw [valuation.sum _ _ _ rfl, valuation.sum _ _ _ rfl, sameLeft, sameRight]
    · rw [valuation.difference _ _ _ rfl, valuation.difference _ _ _ rfl,
        sameLeft, sameRight]
    · rw [valuation.product, valuation.product, sameLeft, sameRight]
    · exact alike left right left' right'
        (Expr.equal_of_equal_operands rfl leftEqual rightEqual)
  | foreign object => cases equal
  | _ => rw [← ignoresWrappers b, Expr.unwrap_eq_of_equal rfl equal]

namespace Expr.IsIntegral

theorem foreign?_eq_none {e : Expr} (integral : e.IsIntegral) :
    e.foreign? = none := by
  induction e with
  | node operation left right leftStep rightStep =>
    rw [foreign?, leftStep integral.1, rightStep integral.2]
    rfl
  | wrap inner inductive_step => exact inductive_step integral
  | foreign object => exact integral.elim
  | _ => rfl

/-- Trees without doubles are joined without failure if their numbers are. -/
theorem exists_join
    {operation : Operation}
    (evaluates : ∀ m n : Int, ∃ e, operation.evaluate (.int m) (.int n) = .ok e)
    {a b : Expr}
    (leftIntegral : a.IsIntegral)
    (rightIntegral : b.IsIntegral) :
    ∃ e, operation.join a b = .ok e := by
  match a, b, leftIntegral, rightIntegral with
  | .const (.int m), .const (.int n), _, _ => exact evaluates m n
  | .const (.int m), .var _, _, _ => exact ⟨_, rfl⟩
  | .const (.int m), .node _ _ _, _, _ => exact ⟨_, rfl⟩
  | .const (.int m), .wrap _, _, _ => exact ⟨_, rfl⟩
  | .var _, _, _, _ => exact ⟨_, rfl⟩
  | .node _ _ _, _, _, _ => exact ⟨_, rfl⟩
  | .wrap _, _, _, _ => exact ⟨_, rfl⟩

end Expr.IsIntegral

/-- A product without quotients is opened without failure. -/
theorem exists_openChain_product
    {e : Expr}
    (isOver : e.Over Operation.integral)
    (integral : e.IsIntegral)
    (upright : Bool) :
    ∃ factors, openChain .product (some .division) upright e = .ok factors := by
  induction e with
  | node operation left right leftStep rightStep =>
    obtain ⟨member, leftOver, rightOver⟩ := isOver
    by_cases isProduct : operation.id = Operation.product.id
    · obtain ⟨first, firstOpened⟩ := leftStep leftOver integral.1
      obtain ⟨second, secondOpened⟩ := rightStep rightOver integral.2
      refine ⟨first ++ second, ?_⟩
      rw [openChain_focus isProduct, firstOpened, secondOpened]
      rfl
    · refine ⟨_, openChain_other isProduct ?_⟩
      rintro _ ⟨⟩
      simp only [Operation.integral, List.mem_cons, List.not_mem_nil, or_false]
        at member
      rcases member with rfl | rfl | rfl | rfl <;> decide
  | wrap inner inductive_step =>
    rw [openChain_wrap]
    exact inductive_step isOver integral
  | foreign object => exact integral.elim
  | _ => exact ⟨_, openChain.eq_def ..⟩

namespace SumClass

variable {good : Expr -> Prop} (sums : SumClass good)
  {invariant : Cache -> Prop}
  {expected : Error -> Prop} {settings : Settings} {recursion : Recursion}

include sums

/-- The terms of a sum are collected without failure. -/
theorem collects
    (standard : settings.registry = .standard)
    (kept : Expr -> Prop)
    (products : ∀ left right, kept (.node .product left right)) :
    Collects invariant expected settings recursion ⟨.product, .sum⟩
      (fun e => good e ∧ kept e) good where
  one := sums.int 1
  finds := by
    rintro term other ⟨termGood, -⟩ ⟨otherGood, -⟩
    rw [multiple_product standard]
    refine productMultiple_ends
      (fun e eGood => (sums.integral e eGood).foreign?_eq_none) termGood
      ?_ ?_ (sums.int 1)
    · obtain ⟨factors, opened⟩ :=
        exists_openChain_product (sums.isOver other otherGood)
          (sums.integral other otherGood) true
      rw [chainTerms_product]
      exact .lift (.of_eq_ok opened (sums.forall_factors otherGood opened))
    · intro a b aGood bGood
      obtain ⟨e, joined⟩ := Expr.IsIntegral.exists_join
        (fun m n => ⟨_, Operation.evaluate_product_int m n⟩)
        (sums.integral a aGood) (sums.integral b bGood)
      exact .of_eq_ok joined
        (sums.joinClosed_product.joined a b e aGood bGood joined)
  adds := by
    intro coefficient factor coefficientGood factorGood
    obtain ⟨e, joined⟩ := Expr.IsIntegral.exists_join
      (fun m n => ⟨_, Operation.evaluate_sum_int m n⟩)
      (sums.integral coefficient coefficientGood)
        (sums.integral factor factorGood)
    exact .of_eq_ok joined
      (sums.joinClosed_sum.joined coefficient factor e coefficientGood
        factorGood joined)
  scales := fun term coefficient termGood coefficientGood =>
    forall_scaled termGood
      ⟨sums.product term coefficient termGood.1 coefficientGood,
        products term coefficient⟩

end SumClass

/-- The trees without quotients, blanks and doubles are such a class. -/
theorem sumClass_integral :
    SumClass fun e => e.Over Operation.integral ∧ e.IsIntegral where
  isOver := fun _ isGood => isGood.1
  integral := fun _ isGood => isGood.2
  int := fun _ => ⟨trivial, trivial⟩
  sum := fun _ _ leftGood rightGood =>
    ⟨⟨by simp [Operation.integral], leftGood.1, rightGood.1⟩, leftGood.2,
      rightGood.2⟩
  product := fun _ _ leftGood rightGood =>
    ⟨⟨by simp [Operation.integral], leftGood.1, rightGood.1⟩, leftGood.2,
      rightGood.2⟩
  factors :=
    fun _ _ isGood => ⟨⟨isGood.1.2.1, isGood.2.1⟩, isGood.1.2.2, isGood.2.2⟩
  inner := fun _ isGood => isGood

/-! ## Products -/

/-- All leaves of the tree are integers and variables, and nothing in it is
wrapped. -/
def Expr.IsExact (e : Expr) : Prop :=
  e.IsPlain ∧ e.IsIntegral

/-- Values of trees in a field that read powers with integers as exponents.
Equal trees have the same value. -/
structure IsPowerValuation {K : Type*} [Field K] (value : Expr ->
    K) : Prop where
  one : value (.int 1) = 1
  power : ∀ operation base (n : Int), operation.id = Operation.power.id ->
    value (.node operation base (.int n)) = value base ^ n
  alike : ∀ a b, a.IsExact -> b.IsExact -> a.equal b = .ok true ->
    value a = value b

/-- Factors whose repetitions can be counted: powers of what is not zero with an
integer as exponent, and other trees that are not zero. -/
inductive Expr.IsFactor {K : Type*} [Zero K] (value : Expr -> K) :
    Expr -> Prop where
  | power (operation : Operation) (base : Expr) (n : Int) :
    operation.id = Operation.power.id -> value base ≠ 0 ->
      IsFactor value (.node operation base (.int n))
  | other (e : Expr) : e.isUnder .power = false -> value e ≠ 0 -> IsFactor value e

/-- The exponent that a coefficient stands for. -/
def Expr.literal : Expr -> Int
  | .const (.int n) => n
  | _ => 1

theorem Operation.plays_exponential_standard (operation : Operation) :
    operation.plays Registry.standard.exponential = true ↔
      operation.id = power.id :=
  beq_iff_eq

/-- An exact quotient of integers. -/
theorem exponentRatio_int (m n : Int) :
    ∃ found, exponentRatio (.int m) (.int n) = .ok found ∧
      ∀ ratio, found = some ratio -> ∃ k : Int, ratio = .int k ∧ n = m * k := by
  have asked : (Expr.int m).askOne = .ok (m == 1) := rfl
  rw [exponentRatio, asked, Result.ok_bind]
  by_cases isOne : m = 1
  · refine ⟨some (.int n), by simp [isOne, pure, Except.pure], ?_⟩
    rintro ratio ⟨⟩
    exact ⟨n, rfl, by rw [isOne, one_mul]⟩
  · refine ⟨if m ≠ 0 ∧ n % m = 0 then some (.int (n / m)) else none,
      by simp [isOne], ?_⟩
    intro ratio isRatio
    split at isRatio
    · next divides =>
      cases isRatio
      exact ⟨n / m, rfl,
        (Int.mul_ediv_cancel' (Int.dvd_of_emod_eq_zero divides.2)).symm⟩
    · cases isRatio

section Powers

variable {K : Type*} [Field K] {value : Expr -> K}
  (valuation : IsPowerValuation value)
  {settings : Settings} (standard : settings.registry = .standard)
  {recursion : Recursion} (recursive : ∀ n : Int,
    recursion (.int n) = pure (.int n))
  {invariant : Cache -> Prop} {expected : Error -> Prop}

include valuation

theorem Expr.IsFactor.ne_zero
    {e : Expr}
    (isFactor : e.IsFactor value) :
    value e ≠ 0 := by
  cases isFactor with
  | power operation base n isPower nonzero =>
    rw [valuation.power operation base n isPower]
    exact zpow_ne_zero n nonzero
  | other _ _ nonzero => exact nonzero

/-- A factor is taken apart into a base and an integer as exponent. -/
theorem Expr.IsFactor.exists_splitPower
    {e : Expr}
    (exact : e.IsExact)
    (isFactor : e.IsFactor value) :
    ∃ base n, splitPower Registry.standard.exponential e = (base, .int n) ∧
      base.IsExact ∧
      value e = value base ^ n := by
  have unwrapped := exact.1.unwrap_eq_self
  cases isFactor with
  | power operation base n isPower nonzero =>
    refine ⟨base, n, ?_, ⟨exact.1.1, exact.2.1⟩,
      valuation.power operation base n isPower⟩
    simp [splitPower, Expr.unwrap,
      (Operation.plays_exponential_standard operation).2 isPower]
  | other _ noPower nonzero =>
    refine ⟨e, 1, ?_, exact, (zpow_one _).symm⟩
    cases e with
    | node operation left right =>
      have different :
          operation.plays Registry.standard.exponential = false := noPower
      simp [splitPower, Expr.unwrap, different]
    | wrap inner => exact exact.1.elim
    | _ => rfl

include standard recursive

/-- A factor that repeats another one is a power of it. -/
theorem multiple_power_ends
    {term other : Expr}
    (termExact : term.IsExact)
    (termFactor : term.IsFactor value)
    (otherExact : other.IsExact)
    (otherFactor : other.IsFactor value) :
    (multiple settings recursion .power term other).Ends invariant expected
      fun found =>
      ∀ factor, found = some factor ->
        ∃ k : Int, factor = .int k ∧ value other = value term ^ k := by
  obtain ⟨base, m, termSplit, baseExact, termValue⟩ :=
    termFactor.exists_splitPower valuation termExact
  obtain ⟨base', n, otherSplit, baseExact', otherValue⟩ :=
    otherFactor.exists_splitPower valuation otherExact
  obtain ⟨isEqual, compared⟩ :=
    Expr.exists_equal_eq_ok baseExact.2.foreign?_eq_none
      baseExact'.2.foreign?_eq_none
  obtain ⟨found, divided, isRatio⟩ := exponentRatio_int m n
  rw [multiple_power standard, powerMultiple, standard, termSplit, otherSplit]
  refine .bind (.lift (.of_eq_ok compared rfl)) ?_
  rintro _ rfl
  cases isEqual with
  | false => exact .pure (by simp)
  | true =>
    refine .bind (.lift (.of_eq_ok divided rfl)) ?_
    rintro _ rfl
    cases found with
    | none => exact .pure (by simp)
    | some ratio =>
      obtain ⟨k, rfl, product⟩ := isRatio ratio rfl
      have simplified :
          (recursion (.int k)).Ends invariant expected (· = .int k) := by
        rw [recursive k]
        exact .pure rfl
      refine .bind simplified ?_
      rintro _ rfl
      refine .pure ?_
      rintro factor ⟨⟩
      refine ⟨k, rfl, ?_⟩
      calc
        value other = value base ^ n := by
          rw [otherValue, valuation.alike base base' baseExact baseExact'
            compared]
        _ = value term ^ k := by rw [product, zpow_mul, termValue]

/-- The factors of a product with their exponents as an accounting. -/
theorem accounting_powers :
    Accounting invariant settings recursion ⟨.power, .sum⟩
      (fun e => e.IsExact ∧ e.IsFactor value) (fun e => ∃ n : Int, e = .int n)
      (fun factors => (factors.map value).prod)
      (fun factor exponent rest =>
        value factor ^ exponent.literal * (rest.map value).prod) where
  starts := by
    refine ⟨⟨1, rfl⟩, fun term rest => ?_⟩
    simp [Expr.literal]
  repeats := by
    rintro term other _ ⟨termExact, termFactor⟩ ⟨otherExact, otherFactor⟩
      ⟨n, rfl⟩
    have ends : (multiple settings recursion .power term other).Ends invariant
        (fun _ => False) _ :=
      multiple_power_ends valuation standard recursive termExact termFactor
        otherExact otherFactor
    refine ends.keeps.mono
      fun found isPower factor isFactor increased joined => ?_
    obtain ⟨k, rfl, otherValue⟩ := isPower factor isFactor
    cases joined
    refine ⟨⟨n + k, rfl⟩, fun rest => ?_⟩
    have nonzero := termFactor.ne_zero valuation
    simp only [Expr.literal, List.map_cons, List.prod_cons, otherValue,
      zpow_add₀ nonzero, mul_assoc]
  passes := by
    intro term exponent exponent' other rest rest' same
    simp only [List.map_cons, List.prod_cons]
    rw [mul_left_comm, same, mul_left_comm]
  settles := by
    rintro term _ ⟨termExact, termFactor⟩ ⟨n, rfl⟩
    have nonzero := termFactor.ne_zero valuation
    refine ⟨forall_scaled ⟨termExact, termFactor⟩
      ⟨⟨⟨termExact.1, trivial⟩, termExact.2, trivial⟩,
        .power _ _ _ rfl nonzero⟩,
      fun rest rest' same => ?_⟩
    unfold scaled
    split
    · next isZero =>
      obtain rfl : n = 0 := by simpa [Expr.isZero, Number.isZero] using isZero
      simp [Expr.literal, same]
    · split
      · next isOne =>
        obtain rfl : n = 1 := by simpa [Expr.isOne, Number.isOne] using isOne
        simp [Expr.literal, same]
      · simp [valuation.power, Expr.literal, same]
  reorders := fun terms terms' permuted => (permuted.map value).prod_eq

/-- The factors of a product are collected without failure. -/
theorem collects_powers :
    Collects invariant expected settings recursion ⟨.power, .sum⟩
      (fun e => e.IsExact ∧ e.IsFactor value) fun e => ∃ n : Int,
        e = .int n where
  one := ⟨1, rfl⟩
  finds := by
    rintro term other ⟨termExact, termFactor⟩ ⟨otherExact, otherFactor⟩
    refine (multiple_power_ends valuation standard recursive termExact
      termFactor otherExact
      otherFactor).mono fun found isPower factor isFactor => ?_
    obtain ⟨k, isInt, -⟩ := isPower factor isFactor
    exact ⟨k, isInt⟩
  adds := by
    rintro _ _ ⟨m, rfl⟩ ⟨n, rfl⟩
    exact ⟨m + n, rfl⟩
  scales := by
    rintro term _ ⟨termExact, termFactor⟩ ⟨n, rfl⟩
    exact forall_scaled ⟨termExact, termFactor⟩
      ⟨⟨⟨termExact.1, trivial⟩, termExact.2, trivial⟩,
        .power _ _ _ rfl (termFactor.ne_zero valuation)⟩

end Powers

/-- The number that a tree is, if it is an integer. -/
def Expr.exponent? : Expr -> Option Int
  | const (.int n) => some n
  | _ => none

/-- The rational value of a power by the number that its exponent is. -/
theorem Expr.rationalValue_node
    (assignment : String -> ℚ)
    (operation : Operation)
    (left right : Expr) :
    (node operation left right).rationalValue assignment =
      if operation.id = Operation.product.id then
        left.rationalValue assignment * right.rationalValue assignment
      else if operation.id = Operation.quotient.id then
        left.rationalValue assignment * (right.rationalValue assignment)⁻¹
      else (right.exponent?.map fun n =>
        left.rationalValue assignment ^ n).getD 0 := by
  cases right with
  | const value => cases value <;> rfl
  | _ => rfl

/-- The rational numbers under an assignment of the variables are such values:
among trees without wrappers, equal ones differ at most in operations with the
same id.  A power sees its exponent, so the induction carries the value together
with the number at the root. -/
theorem isPowerValuation_rationalValue (assignment : String -> ℚ) :
    IsPowerValuation (Expr.rationalValue assignment) where
  one := by simp [Expr.rationalValue]
  power := by
    intro operation base n isPower
    simp [Expr.rationalValue, isPower, Operation.power, Operation.product,
      Operation.quotient]
  alike := by
    intro a b aExact bExact equal
    let seen (e : Expr) : ℚ × Option Int :=
      (e.stripped.rationalValue assignment, e.stripped.exponent?)
    have same : seen a = seen b := by
      refine Expr.congr_of_equal (fun _ => rfl) ?_ equal
      intro operation operation' left left' right right' sameId sameLeft
        sameRight
      obtain ⟨sameLeft, -⟩ := Prod.mk.inj sameLeft
      obtain ⟨sameRight, sameExponent⟩ := Prod.mk.inj sameRight
      refine Prod.ext ?_ rfl
      simp only [seen, Expr.stripped, Expr.rationalValue_node, sameId, sameLeft,
        sameRight, sameExponent]
    have sameValue := congrArg Prod.fst same
    simp only [seen, Expr.stripped_eq_self aExact.1.hasWrapper_eq_false,
      Expr.stripped_eq_self bExact.1.hasWrapper_eq_false] at sameValue
    exact sameValue

/-! ## Both chains -/

/-- Collecting preserves values and does not fail.  The collected terms of a sum
without quotients, blanks and doubles add up to the sum of the terms, in every
commutative ring and for all values of powers that are the same for equal
powers.  The collected factors of a product multiply to the product of the
factors, in every field, if every factor is a power with an integer as exponent
and a base that is not zero, or no power and not zero. -/
theorem Context.collect_value.{u} :
    (∀ {R : Type u} [CommRing R] (value : Expr -> R), IsRingValuation value ->
      PowersAlike value ->
        ∀ context : Context, context.settings.registry = .standard ->
          ∀ terms : List Expr, terms ≠ [] ->
            (∀ term ∈ terms, term.Over Operation.integral ∧ term.IsIntegral) ->
              ∀ memory, ∃ collected,
                ((context.collect .sum terms).outcome memory).1 =
                  .ok collected ∧
                  (collected.map value).sum = (terms.map value).sum) ∧
    (∀ {K : Type u} [Field K] (value : Expr -> K), IsPowerValuation value ->
      ∀ context : Context, context.settings.registry = .standard ->
        ∀ factors : List Expr, factors ≠ [] ->
          (∀ factor ∈ factors, factor.IsExact ∧ factor.IsFactor value) ->
            ∀ memory, memory.depth < context.settings.limits.depth ->
              ∃ collected,
                ((context.collect .product factors).outcome memory).1 =
                  .ok collected ∧
                  (collected.map value).prod = (factors.map value).prod) := by
  constructor
  · intro R _ value valuation alike context standard terms present
      allGood memory
    have respects : valuation.reading.RespectsOn
        fun e => e.Over Operation.integral ∧ e.IsIntegral :=
          fun a b aGood bGood =>
      valuation.respectsOn alike a b aGood.1 bGood.1
    exact StandardChain.sum.exists_collect standard
      (sumClass_integral.accounting valuation.reading respects standard
        (fun _ => True) fun _ _ => trivial)
      (sumClass_integral.collects standard (fun _ => True) fun _ _ => trivial)
      (fun e isGood => isGood.1.2.foreign?_eq_none)
        ⟨⟨trivial, trivial⟩, trivial⟩
      (by simp [IsRingValuation.reading, valuation.int]) present
      (fun term member => ⟨allGood term member, trivial⟩) memory
  · intro K _ value valuation context standard factors present allGood
      memory shallow
    rw [(context.collect_sameAt .product factors _ _).outcome_eq]
    have recursive (n : Int) : simplifyAt context.settings
        (context.settings.limits.depth - memory.depth) (.int n) =
          pure (.int n) := by
      obtain ⟨levels, isSucc⟩ := Nat.exists_eq_add_of_lt shallow
      have levels_eq :
          context.settings.limits.depth - memory.depth = levels + 1 := by omega
      rw [levels_eq]
      rfl
    exact StandardChain.product.exists_collect standard
      (accounting_powers valuation standard recursive)
      (collects_powers valuation standard recursive)
      (fun e isGood => isGood.1.2.foreign?_eq_none)
      ⟨⟨trivial, trivial⟩, .other _ rfl (by simp [valuation.one])⟩
      (by simp [valuation.one]) present allGood memory

/-- What is collected from `x + 3*x + x^2` adds up to 45 where `x` is 5, and
what is collected from `x^2 * x^6 * y` multiplies to 768 where `x` is 2 and `y`
is 3. -/
theorem Context.collect_value_repeated :
    (∃ collected,
      (((Context.ofSettings .standard).collect .sum
        [.var "x", .node .product (.int 3) (.var "x"),
        .node .power (.var "x") (.int 2)]).outcome .empty).1 = .ok collected ∧
        (collected.map (Expr.integerValue fun _ => 5)).sum = 45) ∧
    ∃ collected,
      (((Context.ofSettings .standard).collect .product
        [.node .power (.var "x") (.int 2),
        .node .power (.var "x") (.int 6), .var "y"]).outcome .empty).1 =
          .ok collected ∧
        (collected.map (Expr.rationalValue fun name =>
          if name = "x" then 2 else 3)).prod =
          768 := by
  constructor
  · obtain ⟨collected, returned, total⟩ := Context.collect_value.1 _
      (isRingValuation_integerValue fun _ => 5)
      (fun _ _ _ _ => Reading.integers_respects (fun _ => 5) _ _)
      (Context.ofSettings .standard) rfl
      [.var "x", .node .product (.int 3) (.var "x"),
        .node .power (.var "x") (.int 2)] (by simp)
      (by simp [Expr.Over, Operation.integral, Expr.IsIntegral]) .empty
    exact ⟨collected, returned, total.trans (by decide)⟩
  · have nonzero (name : String) :
        Expr.rationalValue
          (fun name => if name = "x" then 2 else 3) (.var name) ≠ 0 := by
      simp only [Expr.rationalValue]
      split <;> decide +kernel
    obtain ⟨collected, returned, total⟩ := Context.collect_value.2 _
      (isPowerValuation_rationalValue fun name => if name = "x" then 2 else 3)
      (Context.ofSettings .standard) rfl
      [.node .power (.var "x") (.int 2), .node .power (.var "x") (.int 6),
        .var "y"] (by simp)
      (by
        simp only [List.forall_mem_cons, List.not_mem_nil, false_implies,
          implies_true, and_true]
        exact ⟨⟨⟨⟨trivial, trivial⟩, trivial, trivial⟩,
          .power _ _ _ rfl (nonzero "x")⟩,
          ⟨⟨⟨trivial, trivial⟩, trivial, trivial⟩,
            .power _ _ _ rfl (nonzero "x")⟩,
          ⟨trivial, trivial⟩, .other _ rfl (nonzero "y")⟩) .empty (by decide)
    refine ⟨collected, returned, total.trans ?_⟩
    decide +kernel

end Symbolic
