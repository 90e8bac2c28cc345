import Mathlib.Algebra.Order.Ring.Int
import Symbolic.Proofs.CollectValue

/-!
# Polynomials

The trees that a simplification is known to preserve: integers and variables
under sums, differences, products and powers with positive literal exponents.
Where a difference is the right operand of a difference, its operands reach no
further one, so that opening a sum keeps the signs right.

The class is closed under everything that a pass does to a chain, and both sums
and products can be collected in it.
-/

namespace Symbolic

/-- Polynomials with positive literal exponents, in which differences are either
allowed, nested to the right at most once, or not. -/
inductive IsPolynomial (differences : Prop) : Expr -> Prop where
  | int (n : Int) : IsPolynomial differences (.int n)
  | var (name : String) : IsPolynomial differences (.var name)
  | sum {left right : Expr} :
    IsPolynomial differences left -> IsPolynomial differences right ->
      IsPolynomial differences (.node .sum left right)
  | product {left right : Expr} :
    IsPolynomial differences left -> IsPolynomial differences right ->
      IsPolynomial differences (.node .product left right)
  | power {base : Expr} {n : Int} :
    IsPolynomial differences base -> 1 ≤ n ->
      IsPolynomial differences (.node .power base (.int n))
  | difference {left right : Expr} :
    differences -> IsPolynomial differences left ->
      IsPolynomial differences right ->
      right.isNestedDifference = false ->
        IsPolynomial differences (.node .difference left right)

namespace IsPolynomial

variable {differences : Prop} {e : Expr}

/-- A polynomial without differences is one of those that may have them. -/
theorem mono (polynomial : IsPolynomial False e) :
    IsPolynomial differences e := by
  induction polynomial with
  | int n => exact .int n
  | var name => exact .var name
  | sum _ _ leftStep rightStep => exact .sum leftStep rightStep
  | product _ _ leftStep rightStep => exact .product leftStep rightStep
  | power _ positive baseStep => exact .power baseStep positive
  | difference impossible => exact impossible.elim

theorem isOver (polynomial : IsPolynomial differences e) :
    e.Over Operation.integral := by
  induction polynomial with
  | int n => trivial
  | var name => trivial
  | sum _ _ leftStep rightStep =>
    exact ⟨by simp [Operation.integral], leftStep, rightStep⟩
  | product _ _ leftStep rightStep =>
    exact ⟨by simp [Operation.integral], leftStep, rightStep⟩
  | power _ _ baseStep =>
    exact ⟨by simp [Operation.integral], baseStep, trivial⟩
  | difference _ _ _ _ leftStep rightStep =>
    exact ⟨by simp [Operation.integral], leftStep, rightStep⟩

theorem integral (polynomial : IsPolynomial differences e) : e.IsIntegral := by
  induction polynomial with
  | int n => trivial
  | var name => trivial
  | sum _ _ leftStep rightStep => exact ⟨leftStep, rightStep⟩
  | product _ _ leftStep rightStep => exact ⟨leftStep, rightStep⟩
  | power _ _ baseStep => exact ⟨baseStep, trivial⟩
  | difference _ _ _ _ leftStep rightStep => exact ⟨leftStep, rightStep⟩

theorem turnsOnce (polynomial : IsPolynomial differences e) :
    e.turnsOnce = true := by
  induction polynomial with
  | int n => rfl
  | var name => rfl
  | sum _ _ leftStep rightStep =>
    simp [Expr.turnsOnce, leftStep, rightStep, Operation.sum,
      Operation.difference]
  | product _ _ leftStep rightStep =>
    simp [Expr.turnsOnce, leftStep, rightStep, Operation.product,
      Operation.difference]
  | power _ _ baseStep =>
    simp [Expr.turnsOnce, baseStep, Operation.power, Operation.difference]
  | difference _ _ _ flat leftStep rightStep =>
    simp [Expr.turnsOnce, leftStep, rightStep, flat]

theorem foreign?_eq_none (polynomial : IsPolynomial differences e) :
    e.foreign? = none := by
  induction polynomial with
  | int n => rfl
  | var name => rfl
  | sum _ _ leftStep rightStep => simp [Expr.foreign?, leftStep, rightStep]
  | product _ _ leftStep rightStep => simp [Expr.foreign?, leftStep, rightStep]
  | power _ _ baseStep => simp [Expr.foreign?, baseStep]
  | difference _ _ _ _ leftStep rightStep =>
    simp [Expr.foreign?, leftStep, rightStep]

/-- The operands of a polynomial are polynomials. -/
theorem operands
    {operation : Operation}
    {left right : Expr}
    (polynomial : IsPolynomial differences (.node operation left right)) :
    IsPolynomial differences left ∧ IsPolynomial differences right := by
  cases polynomial with
  | sum left right => exact ⟨left, right⟩
  | product left right => exact ⟨left, right⟩
  | power base _ => exact ⟨base, .int _⟩
  | difference _ left right _ => exact ⟨left, right⟩

/-- Sums of polynomials can be collected. -/
theorem sumClass : SumClass (IsPolynomial differences) where
  isOver := fun _ polynomial => polynomial.isOver
  integral := fun _ polynomial => polynomial.integral
  int := .int
  sum := fun _ _ => .sum
  product := fun _ _ => .product
  factors := fun _ _ polynomial => polynomial.operands
  inner := by
    rintro e ⟨⟩

/-- A negated term of a polynomial is a polynomial. -/
theorem negateTerm (polynomial : IsPolynomial differences e) :
    IsPolynomial differences (Transform.negateTerm e) := by
  cases polynomial with
  | int n => exact .int (-n)
  | var name => exact .product (.int (-1)) (.var name)
  | sum left right => exact .product (.int (-1)) (.sum left right)
  | product left right => exact .product (.int (-1)) (.product left right)
  | power base positive => exact .product (.int (-1)) (.power base positive)
  | difference allowed left right flat =>
    exact .difference allowed left right flat

/-- The terms of a polynomial are polynomials and no differences. -/
theorem forall_terms
    (polynomial : IsPolynomial differences e)
    {upright : Bool}
    {terms : List Expr}
    (opened : openChain .sum (some .subtraction) upright e = .ok terms) :
    ∀ term ∈ terms, IsPolynomial differences term ∧
      term.isDifference = false := by
  intro term member
  have inherited :
      IsPolynomial differences term ∧ term.IsTerm .sum (some .subtraction) := by
    revert term
    refine forall_of_openChain (IsPolynomial differences) (by rintro e ⟨⟩) ?_ ?_
      polynomial terms opened
    · intro operation left right nodePolynomial _
      exact nodePolynomial.operands
    · rintro i operation left right upright turned ⟨⟩ _ nodePolynomial ⟨⟩
      obtain ⟨leftPolynomial, rightPolynomial⟩ := nodePolynomial.operands
      cases upright
      · exact leftPolynomial.negateTerm
      · exact rightPolynomial.negateTerm
  refine ⟨inherited.1, ?_⟩
  cases term with
  | node operation left right =>
    have other : operation.id ≠ Operation.difference.id :=
      (inherited.2 operation left right rfl).2 .subtraction rfl
    simpa [Expr.isDifference] using other
  | _ => rfl

/-! ## Repeated factors of products -/

/-- A polynomial split into a base and a positive literal exponent. -/
theorem splitPower
    (polynomial : IsPolynomial differences e)
    (assignment : String -> Int) :
    ∃ base n, Symbolic.splitPower (some .power) e = (base, .int n) ∧ 1 ≤ n ∧
      e.integerValue assignment = base.integerValue assignment ^ n.toNat := by
  cases polynomial with
  | power _ positive => exact ⟨_, _, rfl, positive, rfl⟩
  | int n => exact ⟨_, 1, rfl, le_refl 1, (pow_one _).symm⟩
  | var name => exact ⟨_, 1, rfl, le_refl 1, (pow_one _).symm⟩
  | sum => exact ⟨_, 1, rfl, le_refl 1, (pow_one _).symm⟩
  | product => exact ⟨_, 1, rfl, le_refl 1, (pow_one _).symm⟩
  | difference => exact ⟨_, 1, rfl, le_refl 1, (pow_one _).symm⟩

end IsPolynomial

/-- How many factors a tree counts for in a product, up to two: a power stands
for more than one. -/
def Expr.width : Expr -> Nat
  | .node operation _ _ => if operation.id = Operation.power.id then 2 else 1
  | _ => 1

theorem Expr.one_le_width (e : Expr) : 1 ≤ e.width := by
  unfold width
  split
  · split <;> omega
  · omega

/-- A ratio of positive literal exponents is a positive literal that multiplies
the first to the second. -/
theorem exponentRatio_eq_some
    {m n : Int}
    {ratio : Expr}
    (firstPositive : 1 ≤ m)
    (secondPositive : 1 ≤ n)
    (found : exponentRatio (.int m) (.int n) = .ok (some ratio)) :
    ∃ k, ratio = .int k ∧ 1 ≤ k ∧ n = m * k := by
  obtain ⟨isOne, asked, found⟩ := Result.bind_eq_ok.1 found
  cases asked
  split at found
  · next isOne =>
    cases found
    obtain rfl : m = 1 := by simpa [Expr.isOne] using isOne
    exact ⟨n, rfl, secondPositive, (one_mul n).symm⟩
  · simp only [Result.pure_eq_ok, Except.ok.injEq] at found
    split at found
    · next divides =>
      cases found
      obtain ⟨k, rfl⟩ := Int.dvd_of_emod_eq_zero divides.2
      have kPositive : 0 < k :=
        (mul_pos_iff_of_pos_left (show 0 < m by omega)).1
          (show 0 < m * k by omega)
      rw [Int.mul_ediv_cancel_left k divides.1]
      exact ⟨k, rfl, kPositive, rfl⟩
    · simp at found

/-- A term with a coefficient other than zero. -/
theorem scaled_of_ne_zero
    (promoted : Operation)
    (term : Expr)
    {n : Int}
    (notZero : n ≠ 0) :
    scaled promoted term (.int n) = if n = 1 then [term]
      else [.node promoted term (.int n)] := by
  have isZero : (Expr.int n).isZero = false := by
    simpa [Expr.isZero] using notZero
  rw [scaled, isZero]
  simp [Expr.isOne]

namespace IsPolynomial

variable {differences : Prop} {invariant : Cache -> Prop} {settings : Settings}
  (standard : settings.registry = .standard) {recursion : Recursion}
  (literals : ∀ n, (recursion (.int n)).Keeps invariant fun result =>
    result = .int n)
  (assignment : String -> Int)

include standard literals

/-- A multiple of a factor in a product is a positive literal exponent. -/
theorem power_multiple_keeps
    {base target : Expr}
    (basePolynomial : IsPolynomial differences base)
    (targetPolynomial : IsPolynomial differences target) :
    (multiple settings recursion .power base target).Keeps invariant
      fun found =>
      ∀ factor, found = some factor -> ∃ k, factor = .int k ∧ 1 ≤ k ∧
        target.integerValue assignment =
          base.integerValue assignment ^ k.toNat := by
  obtain ⟨inner, m, baseSplit, mPositive, baseValue⟩ :=
    basePolynomial.splitPower assignment
  obtain ⟨inner', n, targetSplit, nPositive, targetValue⟩ :=
    targetPolynomial.splitPower assignment
  have notProduct :
      Operation.power.plays settings.registry.multiplicative = false := by
    rw [standard]
    rfl
  have isPower :
      Operation.power.plays settings.registry.exponential = true := by
    rw [standard]
    rfl
  have exponential : settings.registry.exponential = some .power := by
    rw [standard]
    rfl
  rw [multiple, notProduct, isPower, powerMultiple, exponential, baseSplit,
    targetSplit]
  simp only [Bool.false_eq_true, if_false, if_true]
  refine Work.Keeps.bind (Work.Keeps.lift fun _ compared => compared)
    fun isEqual compared => ?_
  split
  · next equal =>
    subst equal
    have sameInner := Reading.integers_respects assignment inner inner' compared
    refine Work.Keeps.bind (Work.Keeps.lift fun _ found => found)
      fun found ratioFound => ?_
    cases found with
    | none => exact Work.Keeps.pure (by simp)
    | some ratio =>
      obtain ⟨k, rfl, kPositive, rfl⟩ :=
        exponentRatio_eq_some mPositive nPositive ratioFound
      refine Work.Keeps.bind (literals k) ?_
      rintro _ rfl
      refine Work.Keeps.pure ?_
      rintro _ ⟨⟩
      refine ⟨k, rfl, kPositive, ?_⟩
      simp only [Reading.integers_value] at sameInner
      rw [targetValue, baseValue, ← sameInner, ← pow_mul,
        Int.toNat_mul (by omega) (by omega)]
  · exact Work.Keeps.pure (by simp)

/-- The value of a product as an accounting. -/
theorem productAccounting :
    Accounting invariant settings recursion ⟨.power, .sum⟩
      (IsPolynomial differences)
      (fun coefficient => ∃ n : Int, 1 ≤ n ∧ coefficient = .int n)
      (fun terms => (terms.map (Expr.integerValue assignment)).prod)
      (fun term coefficient rest =>
        term.integerValue
          assignment ^ (coefficient.integerValue assignment).toNat *
          (rest.map (Expr.integerValue assignment)).prod) where
  starts := by
    refine ⟨⟨1, le_refl 1, rfl⟩, fun term rest => ?_⟩
    simp [Expr.integerValue]
  repeats := by
    rintro term other _ termPolynomial otherPolynomial ⟨n, positive, rfl⟩
    refine Work.Keeps.mono
      (power_multiple_keeps standard literals assignment termPolynomial
      otherPolynomial) ?_
    intro found repeated factor isFactor increased joined
    obtain ⟨k, rfl, kPositive, otherValue⟩ := repeated factor isFactor
    cases joined
    refine ⟨⟨n + k, by omega, rfl⟩, fun rest => ?_⟩
    simp only [Expr.integerValue, List.map_cons, List.prod_cons]
    rw [otherValue, Int.toNat_add (by omega) (by omega), pow_add]
    ring
  passes := by
    intro term coefficient coefficient' other rest rest' same
    simp only [List.map_cons, List.prod_cons]
    rw [mul_left_comm, same, mul_left_comm]
  settles := by
    rintro term _ termPolynomial ⟨n, positive, rfl⟩
    rw [scaled_of_ne_zero .power term (by omega)]
    split
    · next isOne =>
      subst isOne
      refine ⟨by simpa using termPolynomial, fun rest rest' same => ?_⟩
      simp [Expr.integerValue, same]
    · refine ⟨by simpa using IsPolynomial.power termPolynomial positive,
        fun rest rest' same => ?_⟩
      simp only [List.singleton_append, List.map_cons, List.prod_cons, same,
        Reading.integers_power]
      rfl
  reorders := fun terms terms' permuted => (permuted.map _).prod_eq

/-- The number of factors, up to two, as an accounting: a repeated factor leaves
a power behind, which counts for two. -/
theorem widthAccounting :
    Accounting invariant settings recursion ⟨.power, .sum⟩
      (IsPolynomial differences)
      (fun coefficient => ∃ n : Nat, 1 ≤ n ∧ coefficient = .int n)
      (fun terms => min 2 (terms.map Expr.width).sum)
      (fun term coefficient rest =>
        min 2 (term.width * (coefficient.integerValue fun _ => 0).toNat +
          (rest.map Expr.width).sum)) where
  starts := by
    refine ⟨⟨1, le_refl 1, rfl⟩, fun term rest => ?_⟩
    simp [Expr.integerValue]
  repeats := by
    rintro term other _ termPolynomial otherPolynomial ⟨n, positive, rfl⟩
    refine Work.Keeps.mono (power_multiple_keeps standard literals
      (fun _ => 0) termPolynomial otherPolynomial) ?_
    intro found repeated factor isFactor increased joined
    obtain ⟨k, rfl, kPositive, -⟩ := repeated factor isFactor
    obtain ⟨k, rfl⟩ := Int.eq_ofNat_of_zero_le (show 0 ≤ k by omega)
    cases joined
    refine ⟨⟨n + k, by omega, rfl⟩, fun rest => ?_⟩
    have termWide := term.one_le_width
    have otherWide := other.one_le_width
    have scaledWide : 1 ≤ term.width * n := Nat.mul_pos termWide positive
    have increasedWide : 2 ≤ term.width * (n + k) := by
      calc
        2 ≤ 1 * (n + k) := by omega
        _ ≤ term.width * (n + k) := Nat.mul_le_mul_right _ termWide
    simp only [Expr.integerValue, List.map_cons, List.sum_cons]
    rw [← Int.natCast_add, Int.toNat_natCast, Int.toNat_natCast]
    omega
  passes := by
    intro term coefficient coefficient' other rest rest' same
    simp only [List.map_cons, List.sum_cons] at same ⊢
    omega
  settles := by
    rintro term _ termPolynomial ⟨n, positive, rfl⟩
    rw [scaled_of_ne_zero .power term (by omega)]
    split
    · next isOne =>
      obtain rfl : n = 1 := by omega
      refine ⟨by simpa using termPolynomial, fun rest rest' same => ?_⟩
      simp [Expr.integerValue]
      omega
    · next notOne =>
      have powerPolynomial :=
        IsPolynomial.power termPolynomial (show (1 : Int) ≤ n by omega)
      refine ⟨by simpa using powerPolynomial, fun rest rest' same => ?_⟩
      have wide : 2 ≤ term.width * n := by
        calc
          2 ≤ 1 * n := by omega
          _ ≤ term.width * n := Nat.mul_le_mul_right _ term.one_le_width
      have powerWide : (Expr.node .power term (.int n)).width = 2 := rfl
      simp only [List.singleton_append, List.map_cons, List.sum_cons, powerWide,
        Expr.integerValue, Int.toNat_natCast]
      omega
  reorders := by
    intro terms terms' permuted
    rw [(permuted.map Expr.width).sum_eq]

/-- Collecting two or more factors of a product preserves its value.  A single
factor that is left is a power. -/
theorem collect_product_keeps
    {terms : List Expr}
    (several : 2 ≤ terms.length)
    (allPolynomial : ∀ term ∈ terms, IsPolynomial differences term) :
    (collect settings recursion .product terms).Keeps invariant fun collected =>
      collected ≠ [] ∧ (∀ term ∈ collected, IsPolynomial differences term) ∧
        (∀ e, collected = [e] -> 2 ≤ e.width) ∧
        (collected.map (Expr.integerValue assignment)).prod =
          (terms.map (Expr.integerValue assignment)).prod := by
  have promotes : settings.registry.promotion? .product = some .power := by
    rw [standard]
    rfl
  have adds : settings.registry.additive = some .sum := by
    rw [standard]
    rfl
  have identifies : settings.registry.identity? .product = some (.int 1) := by
    rw [standard]
    rfl
  have value : Accounting invariant settings recursion ⟨.power, .sum⟩
      (IsPolynomial differences) _ _ _ :=
    productAccounting standard literals assignment
  have width : Accounting invariant settings recursion ⟨.power, .sum⟩
      (IsPolynomial differences) _ _ _ :=
    widthAccounting standard literals
  have wide : 2 ≤ (terms.map Expr.width).sum := by
    match terms, several with
    | first :: second :: rest, _ =>
      have := first.one_le_width
      have := second.one_le_width
      simp only [List.map_cons, List.sum_cons]
      omega
  refine Work.Keeps.mono (Work.Keeps.and
    (value.collect_keeps (.int 1) promotes adds (by decide) identifies (.int 1)
      ?_ allPolynomial)
    (width.collect_keeps (.int 1) promotes adds (by decide) identifies (.int 1)
      ?_ allPolynomial))
    ?_
  · intro vanishes
    simpa [Expr.integerValue] using vanishes
  · intro vanishes
    simp only [List.map_nil, List.sum_nil] at vanishes
    omega
  · rintro collected ⟨⟨notEmpty, allCollected, sameValue⟩, -, -, sameWidth⟩
    refine ⟨notEmpty, allCollected, ?_, sameValue⟩
    rintro e rfl
    simp only [List.map_cons, List.map_nil, List.sum_cons, List.sum_nil]
      at sameWidth
    omega

end IsPolynomial
end Symbolic
