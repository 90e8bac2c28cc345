import Mathlib.Algebra.BigOperators.Group.Finset.Defs
import Mathlib.Tactic.Ring
import Symbolic.Chain.Balanced
import Symbolic.Proofs.ChainOpening
import Symbolic.Proofs.Reading

/-!
# Values of chains

Joining terms to a balanced tree and opening a tree into the terms of its chain
are inverse to each other up to values: a joined tree has the sum, or product,
of the values of its terms, and the terms of a tree add up, or multiply, to its
value.

For sums this needs that signs are tracked correctly.  They are as long as no
difference that is the right operand of a difference reaches a further one; this
is `Expr.turnsOnce`.  In a ring no quotient may occur in a product.
-/

namespace Symbolic

/-! ## Joining -/

namespace Operation

section Total

variable {M : Type*} {operation : Operation} (good : Expr -> Prop)
  (total : List Expr -> M)
  (joins : ∀ a b e, good a -> good b -> operation.join a b = .ok e ->
    good e ∧ ∀ rest, total (e :: rest) = total (a :: b :: rest))
  (congruent : ∀ term rest rest', total rest = total rest' ->
    total (term :: rest) = total (term :: rest'))

include joins congruent

/-- A quantity that joining two neighbours preserves is preserved by a round of
joining, and so is a property of the terms. -/
theorem joinPairs_total (terms : List Expr) :
    ∀ joined, (∀ term ∈ terms, good term) ->
      operation.joinPairs terms = .ok joined ->
      (∀ term ∈ joined, good term) ∧ total joined = total terms := by
  fun_induction joinPairs operation terms with
  | case1 first second rest inductive_step =>
    intro joined allGood returned
    obtain ⟨head, headJoined, returned⟩ := Result.bind_eq_ok.1 returned
    obtain ⟨others, othersJoined, returned⟩ := Result.bind_eq_ok.1 returned
    cases returned
    obtain ⟨headGood, headTotal⟩ :=
      joins first second head (allGood first (by simp))
        (allGood second (by simp)) headJoined
    obtain ⟨othersGood, othersTotal⟩ :=
      inductive_step others
        (fun term member => allGood term (by simp [member])) othersJoined
    refine ⟨?_, ?_⟩
    · intro term member
      rcases List.mem_cons.1 member with rfl | later
      · exact headGood
      · exact othersGood term later
    · rw [congruent head others rest othersTotal, headTotal rest]
  | case2 terms notTwo =>
    intro joined allGood returned
    cases returned
    exact ⟨allGood, rfl⟩

/-- A quantity that joining two neighbours preserves is the same for the terms
and for the tree that they are joined to. -/
theorem joinAll_total
    {terms : List Expr}
    {e : Expr}
    (allGood : ∀ term ∈ terms, good term)
    (joined : operation.joinAll terms = .ok e) :
    good e ∧ total [e] = total terms := by
  fun_induction joinAll operation terms with
  | case1 => simp at joined
  | case2 term =>
    cases joined
    exact ⟨allGood e (by simp), rfl⟩
  | case3 first second rest failure round => simp at joined
  | case4 first second rest paired round inductive_step =>
    obtain ⟨pairedGood, pairedTotal⟩ :=
      joinPairs_total good total joins congruent (first :: second :: rest)
        paired allGood round
    obtain ⟨eGood, eTotal⟩ := inductive_step pairedGood joined
    exact ⟨eGood, eTotal.trans pairedTotal⟩

end Total

end Operation

/-- The tree is a double. -/
def Expr.isReal : Expr -> Bool
  | .const (.real _) => true
  | _ => false

namespace Operation

/-- Operands that are no doubles are grouped, or evaluated when both are
integers. -/
theorem join_cases
    {operation : Operation}
    {a b e : Expr}
    (leftExact : a.isReal = false)
    (rightExact : b.isReal = false)
    (joined : operation.join a b = .ok e) :
    e = .node operation a b ∨
      ∃ m n, a = .int m ∧ b = .int n ∧
        operation.evaluate (.int m) (.int n) = .ok e := by
  cases a with
  | const x =>
    cases x with
    | real x => simp [Expr.isReal] at leftExact
    | int m =>
      cases b with
      | const y =>
        cases y with
        | real y => simp [Expr.isReal] at rightExact
        | int n => exact .inr ⟨m, n, rfl, rfl, joined⟩
      | foreign object => simp [join] at joined
      | _ =>
        simp only [join, Except.ok.injEq] at joined
        exact .inl joined.symm
  | foreign object => simp [join] at joined
  | _ =>
    simp only [join, Except.ok.injEq] at joined
    exact .inl joined.symm

@[simp] theorem evaluate_sum_int (m n : Int) :
    sum.evaluate (.int m) (.int n) = .ok (.int (m + n)) := rfl

@[simp] theorem evaluate_product_int (m n : Int) :
    product.evaluate (.int m) (.int n) = .ok (.int (m * n)) := rfl

end Operation

namespace Reading

variable {R : Type*} [CommRing R] (reading : Reading R)

theorem value_join_sum
    {a b e : Expr}
    (leftExact : a.isReal = false)
    (rightExact : b.isReal = false)
    (joined : Operation.sum.join a b = .ok e) :
    reading.value e = reading.value a + reading.value b := by
  rcases Operation.join_cases leftExact rightExact joined with
    rfl | ⟨m, n, rfl, rfl, evaluated⟩
  · exact reading.value_sum a b
  · cases evaluated
    simp

theorem value_join_product
    {a b e : Expr}
    (leftExact : a.isReal = false)
    (rightExact : b.isReal = false)
    (joined : Operation.product.join a b = .ok e) :
    reading.value e = reading.value a * reading.value b := by
  rcases Operation.join_cases leftExact rightExact joined with
    rfl | ⟨m, n, rfl, rfl, evaluated⟩
  · exact reading.value_product a b
  · cases evaluated
    simp

/-- A class of trees without doubles that is closed under joining. -/
structure JoinClosed (operation : Operation) (good : Expr -> Prop) : Prop where
  exact : ∀ e, good e -> e.isReal = false
  joined : ∀ a b e, good a -> good b -> operation.join a b = .ok e -> good e

/-- The value of a balanced sum is the sum of the values of its terms. -/
theorem value_joinAll_sum
    {good : Expr -> Prop}
    (closed : JoinClosed .sum good)
    {terms : List Expr}
    {e : Expr}
    (allGood : ∀ term ∈ terms, good term)
    (joined : Operation.sum.joinAll terms = .ok e) :
    good e ∧ reading.value e = (terms.map reading.value).sum := by
  have preserved := Operation.joinAll_total good
    (fun terms => (terms.map reading.value).sum) ?_ ?_ allGood joined
  · simpa using preserved
  · intro a b e aGood bGood joined
    refine ⟨closed.joined a b e aGood bGood joined, fun rest => ?_⟩
    simp only [List.map_cons, List.sum_cons]
    rw [reading.value_join_sum (closed.exact a aGood) (closed.exact b bGood)
      joined, add_assoc]
  · intro term rest rest' same
    simp only [List.map_cons, List.sum_cons, same]

/-- The value of a balanced product is the product of the values of its
factors. -/
theorem value_joinAll_product
    {good : Expr -> Prop}
    (closed : JoinClosed .product good)
    {terms : List Expr}
    {e : Expr}
    (allGood : ∀ term ∈ terms, good term)
    (joined : Operation.product.joinAll terms = .ok e) :
    good e ∧ reading.value e = (terms.map reading.value).prod := by
  have preserved := Operation.joinAll_total good
    (fun terms => (terms.map reading.value).prod) ?_ ?_ allGood joined
  · simpa using preserved
  · intro a b e aGood bGood joined
    refine ⟨closed.joined a b e aGood bGood joined, fun rest => ?_⟩
    simp only [List.map_cons, List.prod_cons]
    rw [reading.value_join_product (closed.exact a aGood)
      (closed.exact b bGood) joined, mul_assoc]
  · intro term rest rest' same
    simp only [List.map_cons, List.prod_cons, same]

end Reading

/-- Joined literals are a literal. -/
theorem joinClosed_literals_sum :
    Reading.JoinClosed .sum fun e => ∃ n, e = .int n where
  exact := by
    rintro _ ⟨n, rfl⟩
    rfl
  joined := by
    rintro _ _ e ⟨m, rfl⟩ ⟨n, rfl⟩ joined
    cases joined
    exact ⟨m + n, rfl⟩

theorem joinClosed_literals_product :
    Reading.JoinClosed .product fun e => ∃ n, e = .int n where
  exact := by
    rintro _ ⟨n, rfl⟩
    rfl
  joined := by
    rintro _ _ e ⟨m, rfl⟩ ⟨n, rfl⟩ joined
    cases joined
    exact ⟨m * n, rfl⟩

/-! ## Terms of sums -/

namespace Expr

/-- The tree is a difference. -/
def isDifference : Expr -> Bool
  | node operation _ _ => operation.id == Operation.difference.id
  | _ => false

/-- A difference is reached from the root through sums, differences and
wrappers. -/
def reachesDifference : Expr -> Bool
  | node operation left right =>
    operation.id == Operation.difference.id ||
      (operation.id == Operation.sum.id &&
        (left.reachesDifference || right.reachesDifference))
  | wrap inner => inner.reachesDifference
  | _ => false

/-- The tree is a difference and one of its operands reaches a further one. -/
def isNestedDifference : Expr -> Bool
  | node operation left right =>
    operation.id == Operation.difference.id &&
      (left.reachesDifference || right.reachesDifference)
  | _ => false

/-- Wherever a difference is the right operand of a difference, its own operands
reach no further one. -/
def turnsOnce : Expr -> Bool
  | node operation left right =>
    left.turnsOnce && right.turnsOnce &&
      !(operation.id == Operation.difference.id && right.isNestedDifference)
  | wrap inner => inner.turnsOnce
  | _ => true

theorem IsIntegral.isReal_eq_false
    {e : Expr}
    (integral : e.IsIntegral) :
    e.isReal = false := by
  match e, integral with
  | const (.int _), _ => rfl
  | var _, _ => rfl
  | node _ _ _, _ => rfl
  | wrap _, _ => rfl

theorem reachesDifference_eq (e : Expr) :
    e.reachesDifference = e.reaches .sum .difference := by
  induction e with
  | node operation left right leftStep rightStep =>
    rw [reachesDifference, reaches, leftStep, rightStep]
  | wrap inner inductive_step => exact inductive_step
  | _ => rfl

theorem isNestedDifference_eq (e : Expr) :
    e.isNestedDifference = e.isNested .sum .difference := by
  cases e with
  | node operation left right =>
    rw [isNestedDifference, isNested, left.reachesDifference_eq,
      right.reachesDifference_eq]
  | _ => rfl

theorem turnsOnce_eq (e : Expr) :
    e.turnsOnce = e.turnsOnceUnder .sum .difference := by
  induction e with
  | node operation left right leftStep rightStep =>
    rw [turnsOnce, turnsOnceUnder, leftStep, rightStep,
      right.isNestedDifference_eq]
  | wrap inner inductive_step => exact inductive_step
  | _ => rfl

end Expr

/-- Joining two or more terms under another operation makes no difference. -/
theorem isDifference_of_joinAll
    {operation : Operation}
    (other : operation.id ≠ Operation.difference.id)
    {terms : List Expr}
    {e : Expr}
    (joined : operation.joinAll terms = .ok e) :
    terms = [e] ∨ e.isDifference = false := by
  have pair {a b e : Expr} (joined : operation.join a b = .ok e) :
      e.isDifference = false := by
    unfold Operation.join at joined
    split at joined
    · simp at joined
    · simp at joined
    · simp only [Operation.evaluate] at joined
      split at joined
      · cases joined
        rfl
      · simp at joined
    · cases joined
      simpa [Expr.isDifference] using other
  fun_induction Operation.joinAll operation terms with
  | case1 => simp at joined
  | case2 term =>
    cases joined
    exact .inl rfl
  | case3 first second rest failure round => simp at joined
  | case4 first second rest paired round inductive_step =>
    rcases inductive_step joined with rfl | noDifference
    · obtain ⟨head, headJoined, round⟩ := Result.bind_eq_ok.1 round
      obtain ⟨others, -, round⟩ := Result.bind_eq_ok.1 round
      cases round
      exact .inr (pair headJoined)
    · exact .inr noDifference

/-- What is asked of the values of some trees: integers, sums, differences and
negated terms are read as usual, operations being known by their ids, and a
wrapper as what it encloses. -/
structure ReadsSums
    {R : Type*}
    [CommRing R]
    (good : Expr -> Prop)
    (value : Expr -> R) : Prop where
  integral : ∀ e, good e -> e.IsIntegral
  genuine : ∀ operation left right, good (.node operation left right) ->
    operation.isSame .difference = true ->
      operation.id = Operation.difference.id
  inner : ∀ e, good (.wrap e) -> good e
  operands : ∀ operation left right, good (.node operation left right) ->
    good left ∧ good right
  int : ∀ n : Int, value (.int n) = n
  sum : ∀ operation left right, good (.node operation left right) ->
    operation.id = Operation.sum.id ->
      value (.node operation left right) = value left + value right
  difference : ∀ operation left right, good (.node operation left right) ->
    operation.id = Operation.difference.id ->
      value (.node operation left right) = value left - value right
  negated : ∀ e, value (.node .product (.int (-1)) e) = -value e
  wrap : ∀ e, value (.wrap e) = value e

namespace ReadsSums

variable {R : Type*} [CommRing R] {good : Expr -> Prop} {value : Expr -> R}
  (reads : ReadsSums good value)

include reads

/-- A negated term that is kept is a difference, and any other one is a single
term with the opposite value. -/
theorem negated_cases
    {e : Expr}
    (isGood : good e) :
    (e.isUnder .difference = true ∧ Transform.negateTerm e = e) ∨
      (∀ upright, openChain .sum (some .subtraction) upright
        (Transform.negateTerm e) =
        .ok [Transform.negateTerm e]) ∧
        value (Transform.negateTerm e) = -value e := by
  rcases Transform.negateTerm_cases e with ⟨number, rfl, negated⟩ |
    ⟨operation, left, right, rfl, same, kept⟩ | negated
  · right
    cases number with
    | int n =>
      refine ⟨fun upright => ?_, ?_⟩
      · rw [negated, openChain_const]
      · rw [negated, Number.neg_int, reads.int, reads.int, Int.cast_neg]
    | real x => exact absurd (reads.integral _ isGood) id
  · exact .inl ⟨beq_iff_eq.2 (reads.genuine operation left right isGood same),
      kept⟩
  · right
    rw [negated]
    exact ⟨fun upright => openChain_other (by decide) (by rintro _ ⟨⟩; decide),
      reads.negated e⟩

/-- The chains of sums, with sums for products. -/
theorem readsChain :
    ReadsChain .sum .subtraction good fun e =>
      Multiplicative.ofAdd (value e) where
  different := by decide
  noBlank := fun isGood => reads.integral _ isGood
  noForeign := fun _ isGood => reads.integral _ isGood
  inner := fun e isGood =>
    ⟨reads.inner e isGood, congrArg Multiplicative.ofAdd (reads.wrap e)⟩
  operands := fun operation left right isGood _ =>
    reads.operands operation left right isGood
  focused := fun operation left right isGood isSum =>
    congrArg Multiplicative.ofAdd (reads.sum operation left right isGood isSum)
  inverted := fun operation left right isGood isDifference =>
    congrArg Multiplicative.ofAdd
      (reads.difference operation left right isGood isDifference)
  transformed := by
    intro operation left right e isGood _ isOperand
    obtain ⟨leftGood, rightGood⟩ := reads.operands operation left right isGood
    have eGood : good e := by
      rcases isOperand with rfl | rfl
      · exact leftGood
      · exact rightGood
    rcases reads.negated_cases eGood with ⟨isUnder, kept⟩ | ⟨single, opposite⟩
    · exact .inl ⟨isUnder, congrArg Except.ok kept⟩
    · exact .inr ⟨_, rfl, single, congrArg Multiplicative.ofAdd opposite⟩

/-- A sum is opened, and its terms add up to its value. -/
theorem exists_terms
    {e : Expr}
    (isGood : good e)
    (once : e.turnsOnceUnder .sum .difference = true) :
    ∃ terms, openChain .sum (some .subtraction) true e = .ok terms ∧
      (terms.map value).sum = value e := by
  obtain ⟨terms, opened, total⟩ := reads.readsChain.opens isGood once
  refine ⟨terms, opened, ?_⟩
  have separate : terms.map (fun e => Multiplicative.ofAdd (value e)) =
      (terms.map value).map Multiplicative.ofAdd := by
    rw [List.map_map]
    rfl
  rw [separate, ← ofAdd_list_prod] at total
  exact Multiplicative.ofAdd.injective total

end ReadsSums

/-- Every reading reads the sums of integral trees over the operations of
arithmetic. -/
theorem Reading.readsSums
    {R : Type*}
    [CommRing R]
    (reading : Reading R) :
    ReadsSums (fun e => e.Over Operation.arithmetic ∧ e.IsIntegral)
      reading.value where
  integral := fun e isGood => isGood.2
  genuine := by
    rintro operation left right ⟨⟨member, -, -⟩, -⟩ same
    rcases Operation.mem_arithmetic_iff.1 member with
      rfl | rfl | rfl | rfl | rfl <;>
      first | rfl | exact absurd same (by decide)
  inner := fun e isGood => isGood
  operands := fun operation left right isGood =>
    ⟨⟨isGood.1.2.1, isGood.2.1⟩, isGood.1.2.2, isGood.2.2⟩
  int := reading.value_int
  sum := by
    rintro operation left right ⟨⟨member, -, -⟩, -⟩ isSum
    obtain rfl :=
      Operation.eq_of_id_eq member (by simp [Operation.arithmetic]) isSum
    exact reading.value_sum left right
  difference := by
    rintro operation left right ⟨⟨member, -, -⟩, -⟩ isDifference
    obtain rfl :=
      Operation.eq_of_id_eq member (by simp [Operation.arithmetic]) isDifference
    exact reading.value_difference left right
  negated := fun e => by simp
  wrap := reading.value_wrap

/-- The terms of a sum add up to its value. -/
theorem Reading.sum_openChain
    {R : Type*}
    [CommRing R]
    (reading : Reading R)
    {e : Expr}
    (isOver : e.Over Operation.arithmetic)
    (integral : e.IsIntegral)
    (once : e.turnsOnce = true)
    {terms : List Expr}
    (opened : openChain .sum (some .subtraction) true e = .ok terms) :
    (terms.map reading.value).sum = reading.value e := by
  rw [Expr.turnsOnce_eq] at once
  obtain ⟨terms', opened', total⟩ :=
    reading.readsSums.exists_terms ⟨isOver, integral⟩ once
  cases opened.symm.trans opened'
  exact total

/-! ## Factors of products -/

/-- The operations that do not lead out of the integers. -/
def Operation.integral : List Operation :=
  [sum, difference, product, power]

theorem Operation.mem_arithmetic_of_mem_integral
    {operation : Operation}
    (member : operation ∈ integral) :
    operation ∈ arithmetic := by
  simp only [integral, List.mem_cons, List.not_mem_nil, or_false] at member
  rcases member with rfl | rfl | rfl | rfl <;> simp [arithmetic]

/-- The factors of a product without quotients multiply to its value. -/
theorem Reading.prod_openChain
    {R : Type*}
    [CommRing R]
    (reading : Reading R)
    {e : Expr}
    (isOver : e.Over Operation.integral)
    (integral : e.IsIntegral)
    {upright : Bool}
    {terms : List Expr}
    (opened : openChain .product (some .division) upright e = .ok terms) :
    (terms.map reading.value).prod = reading.value e := by
  induction e generalizing terms with
  | node operation left right leftStep rightStep =>
    obtain ⟨member, overLeft, overRight⟩ := isOver
    by_cases isProduct : operation.id = Operation.product.id
    · obtain rfl :=
        Operation.eq_of_id_eq (Operation.mem_arithmetic_of_mem_integral member)
        (by simp [Operation.arithmetic]) isProduct
      rw [openChain_focus rfl] at opened
      obtain ⟨first, second, firstOpened, secondOpened, rfl⟩ :=
        Result.append_eq_ok.1 opened
      have firstProduct := leftStep overLeft integral.1 firstOpened
      have secondProduct := rightStep overRight integral.2 secondOpened
      rw [List.map_append, List.prod_append, firstProduct, secondProduct,
        value_product]
    · have noQuotient : operation.id ≠ Operation.quotient.id := by
        simp only [Operation.integral, List.mem_cons, List.not_mem_nil,
          or_false] at member
        rcases member with rfl | rfl | rfl | rfl <;> decide
      rw [openChain_other isProduct (by rintro i ⟨⟩; exact noQuotient)]
        at opened
      cases opened
      simp
  | wrap inner inductive_step =>
    rw [openChain_wrap] at opened
    rw [inductive_step isOver integral opened, value_wrap]
  | const value =>
    rw [openChain_const] at opened
    cases opened
    simp
  | var name =>
    rw [openChain_var] at opened
    cases opened
    simp
  | blank => exact absurd integral id
  | foreign object => exact absurd integral id

/-- Only blanks leave no term. -/
theorem openChain_ne_nil
    {focus : Operation}
    {inverse : Option Inverse}
    {upright : Bool}
    {e : Expr}
    (integral : e.IsIntegral)
    {terms : List Expr}
    (opened : openChain focus inverse upright e = .ok terms) :
    terms ≠ [] := by
  fun_induction openChain focus inverse upright e generalizing terms with
  | case1 upright => exact absurd integral id
  | case4 upright inner inductive_step => exact inductive_step integral opened
  | case5 upright object => exact absurd integral id
  | case6 upright operation left right same leftStep rightStep =>
    obtain ⟨first, second, firstOpened, secondOpened, rfl⟩ :=
      Result.append_eq_ok.1 opened
    simp [leftStep integral.1 firstOpened]
  | case8 upright operation left right different i present same failure failed =>
    simp at opened
  | case9 upright operation left right different i present same turned applied keptStep
      turnedStep =>
    obtain ⟨first, second, firstOpened, secondOpened, rfl⟩ :=
      Result.append_eq_ok.1 opened
    have keptIntegral : (if upright then left else right).IsIntegral := by
      cases upright
      · exact integral.2
      · exact integral.1
    simp [keptStep keptIntegral firstOpened]
  | _ =>
    cases opened
    simp

end Symbolic
