import Symbolic.Chain.Collect
import Symbolic.Proofs.ChainValue
import Symbolic.Proofs.WorkLogic

/-!
# Values of collected terms

Collecting repeated terms moves a term into the coefficient of an earlier one.
An `Accounting` says what that move preserves: an amount that a term with its
coefficient and the terms still to be looked at have together.  Whatever has an
accounting is preserved by a sweep, by the collection of all terms and by the
reordering in front of it.

For sums the amount is the value of the chain in any reading that respects
equality.
-/

namespace Symbolic

/-! ## Order -/

theorem insertByLength_perm
    (term : Expr)
    (terms : List Expr) :
    (insertByLength term terms).Perm (term :: terms) := by
  fun_induction insertByLength term terms with
  | case1 => exact List.Perm.refl _
  | case2 other rest shorter => exact List.Perm.refl _
  | case3 other rest longer inductive_step =>
    exact (inductive_step.cons other).trans (List.Perm.swap term other rest)

/-- Ordering keeps all terms. -/
theorem orderByLength_perm
    {terms ordered : List Expr}
    (returned : orderByLength terms = .ok ordered) :
    ordered.Perm terms := by
  unfold orderByLength at returned
  split at returned
  · simp at returned
  · cases returned
    induction terms with
    | nil => exact List.Perm.refl _
    | cons term rest inductive_step =>
      have later : rest.findSome? Expr.foreign? = none := by
        simp_all [List.findSome?_eq_none_iff]
      exact (insertByLength_perm term _).trans
        ((inductive_step later).cons term)

/-- A term with its coefficient is the term itself, or the two under the
operation for repeated terms. -/
theorem forall_scaled
    {good : Expr -> Prop}
    {promoted : Operation}
    {term coefficient : Expr}
    (termGood : good term)
    (grouped : good (.node promoted term coefficient)) :
    ∀ e ∈ scaled promoted term coefficient, good e := by
  unfold scaled
  split
  · simp
  · split
    · simpa using termGood
    · simpa using grouped

/-! ## Accountings -/

section Accounting

variable {M : Type*} {invariant : Cache -> Prop} {settings : Settings}
  {recursion : Recursion}
  {collection : Collection} {good isCoefficient : Expr -> Prop}
  {total : List Expr -> M} {account : Expr -> Expr -> List Expr -> M}

/-- What collecting preserves.  `total` is the amount of a list of terms, and
`account term coefficient rest` the amount of a term that counts as often as its
coefficient says, together with the remaining terms. -/
structure Accounting
    (invariant : Cache -> Prop)
    (settings : Settings)
    (recursion : Recursion)
    (collection : Collection)
    (good isCoefficient : Expr -> Prop)
    (total : List Expr -> M)
    (account : Expr -> Expr -> List Expr -> M) : Prop where
  /-- A term starts with the coefficient one. -/
  starts : isCoefficient (.int 1) ∧ ∀ term rest,
    account term (.int 1) rest = total (term :: rest)
  /-- A term that repeats another one goes into its coefficient. -/
  repeats : ∀ term other coefficient, good term -> good other ->
    isCoefficient coefficient ->
    (multiple settings recursion collection.promoted term other).Keeps invariant
      fun found =>
      ∀ factor, found = some factor ->
        ∀ increased, collection.additive.join coefficient factor =
          .ok increased ->
          isCoefficient increased ∧
            ∀ rest, account term increased rest =
              account term coefficient (other :: rest)
  /-- A term that repeats nothing is passed over. -/
  passes : ∀ term coefficient coefficient' other rest rest',
    account term coefficient' rest' = account term coefficient rest ->
      account term coefficient' (other :: rest') =
        account term coefficient (other :: rest)
  /-- A term takes its coefficient into the result. -/
  settles : ∀ term coefficient, good term -> isCoefficient coefficient ->
    (∀ e ∈ scaled collection.promoted term coefficient, good e) ∧
      ∀ rest rest', total rest = total rest' ->
        total (scaled collection.promoted term coefficient ++ rest) =
          account term coefficient rest'
  /-- The order of terms does not matter. -/
  reorders : ∀ terms terms', terms.Perm terms' -> total terms = total terms'

namespace Accounting

variable
  (accounting : Accounting invariant settings recursion collection good
    isCoefficient total account)

include accounting

theorem sweep_keeps
    {term coefficient : Expr}
    (termGood : good term)
    (isCoefficient_coefficient : isCoefficient coefficient)
    (later : List Expr)
    (laterGood : ∀ other ∈ later, good other) :
    (sweep settings recursion collection term coefficient later).Keeps invariant
      fun swept =>
      isCoefficient swept.1 ∧ (∀ other ∈ swept.2.1, good other) ∧
        account term swept.1 swept.2.1 = account term coefficient later := by
  induction later generalizing coefficient with
  | nil =>
    refine Work.Keeps.pure ⟨isCoefficient_coefficient, ?_, rfl⟩
    simp
  | cons other rest inductive_step =>
    have otherGood := laterGood other List.mem_cons_self
    have restGood : ∀ e ∈ rest, good e := fun e member =>
      laterGood e (List.mem_cons_of_mem other member)
    rw [sweep]
    refine Work.Keeps.bind
      (accounting.repeats term other coefficient termGood otherGood
        isCoefficient_coefficient)
      fun found repeated => ?_
    cases found with
    | none =>
      refine Work.Keeps.bind (inductive_step isCoefficient_coefficient restGood)
        fun swept sweptGood => ?_
      obtain ⟨coefficient', left, bound⟩ := swept
      obtain ⟨isCoefficient', leftGood, amount⟩ := sweptGood
      refine Work.Keeps.pure ⟨isCoefficient', ?_, ?_⟩
      · intro e member
        rcases List.mem_cons.1 member with rfl | inLeft
        · exact otherGood
        · exact leftGood e inLeft
      · exact accounting.passes term coefficient coefficient' other rest
          left amount
    | some factor =>
      refine Work.Keeps.bind (Work.Keeps.lift (repeated factor rfl))
        fun increased joined => ?_
      obtain ⟨isIncreased, moved⟩ := joined
      refine Work.Keeps.bind (inductive_step isIncreased restGood)
        fun swept sweptGood => ?_
      obtain ⟨coefficient', left, bound⟩ := swept
      obtain ⟨isCoefficient', leftGood, amount⟩ := sweptGood
      exact Work.Keeps.pure ⟨isCoefficient', leftGood,
        amount.trans (moved rest)⟩

/-- Collecting keeps the amount of all terms.  The recursion is on what a sweep
leaves, which is not longer than what it was given. -/
theorem collectOrdered_keeps
    (terms : List Expr)
    (allGood : ∀ term ∈ terms, good term) :
    (collectOrdered settings recursion collection terms).Keeps invariant
      fun collected =>
      (∀ term ∈ collected, good term) ∧ total collected = total terms := by
  induction length : terms.length using Nat.strongRecOn generalizing terms with
  | ind count inductive_step =>
    cases terms with
    | nil =>
      rw [collectOrdered]
      exact Work.Keeps.pure ⟨by simp, rfl⟩
    | cons term later =>
      have termGood := allGood term List.mem_cons_self
      rw [collectOrdered]
      refine Work.Keeps.bind
        (accounting.sweep_keeps termGood accounting.starts.1 later
        fun e member => allGood e (List.mem_cons_of_mem term member))
          fun swept sweptGood => ?_
      obtain ⟨coefficient, left, bound⟩ := swept
      obtain ⟨isCoefficient', leftGood, amount⟩ := sweptGood
      have shorter : left.length < count := by
        simp only [← length, List.length_cons]
        omega
      refine Work.Keeps.bind
        (inductive_step left.length shorter left leftGood rfl)
        fun others othersGood => ?_
      obtain ⟨scaledGood, scaledTotal⟩ :=
        accounting.settles term coefficient termGood isCoefficient'
      refine Work.Keeps.pure ⟨?_, ?_⟩
      · intro e member
        rcases List.mem_append.1 member with inScaled | inOthers
        · exact scaledGood e inScaled
        · exact othersGood.1 e inOthers
      · calc
          total (scaled collection.promoted term coefficient ++ others) =
              account term coefficient left :=
                scaledTotal others left othersGood.2
          _ = account term (.int 1) later := amount
          _ = total (term :: later) := accounting.starts.2 term later

/-- Collecting the terms of a chain preserves their amount.  Something is always
left, since the identity element takes the place of an empty result. -/
theorem collect_keeps
    {focus : Operation}
    (unit : Expr)
    (promotes : settings.registry.promotion? focus = some collection.promoted)
    (adds : settings.registry.additive = some collection.additive)
    (different : collection.promoted.id ≠ focus.id)
    (identifies : settings.registry.identity? focus = some unit)
    (unitGood : good unit)
    {terms : List Expr}
    (unitTotal : total [] = total terms -> total [unit] = total terms)
    (allGood : ∀ term ∈ terms, good term) :
    (collect settings recursion focus terms).Keeps invariant fun collected =>
      collected ≠ [] ∧ (∀ term ∈ collected, good term) ∧
        total collected = total terms := by
  unfold collect
  dsimp only
  split
  · exact Work.Keeps.bind (Work.Keeps.throw _ fun _ => False)
      fun _ impossible => impossible.elim
  · have promoted : (promote settings.registry focus).Keeps invariant
        fun promoted => promoted = collection.promoted := by
      rw [promote, promotes]
      exact Work.Keeps.pure rfl
    refine Work.Keeps.bind promoted ?_
    rintro _ rfl
    simp only [adds, if_neg different]
    refine Work.Keeps.bind (Work.Keeps.lift fun _ => orderByLength_perm)
      fun ordered permuted => ?_
    refine Work.Keeps.bind (accounting.collectOrdered_keeps ordered
      fun term member =>
      allGood term (permuted.mem_iff.1 member))
        fun collected collectedGood => ?_
    have amount : total collected = total terms :=
      collectedGood.2.trans (accounting.reorders ordered terms permuted)
    split
    · next empty =>
      obtain rfl := List.isEmpty_iff.1 empty
      have replaced : ((·.toList) <$> identity settings.registry focus :
          Work (List Expr)).Keeps
          invariant fun remaining => remaining = [unit] := by
        rw [identity, identifies]
        exact Work.Keeps.map (Work.Keeps.pure rfl)
      refine Work.Keeps.bind replaced ?_
      rintro _ rfl
      refine Work.Keeps.bind (Work.Keeps.note _) fun _ _ =>
        Work.Keeps.pure ⟨by simp, ?_, ?_⟩
      · intro term member
        obtain rfl := List.mem_singleton.1 member
        exact unitGood
      · exact unitTotal amount
    · next notEmpty =>
      refine Work.Keeps.bind (Work.Keeps.pure rfl) ?_
      rintro _ rfl
      refine Work.Keeps.bind (Work.Keeps.note _) fun _ _ =>
        Work.Keeps.pure ⟨?_, collectedGood.1, amount⟩
      simpa using notEmpty

end Accounting
end Accounting

/-! ## Repeated terms of sums -/

/-- Taking out the first factor that equals `base` leaves the other factors. -/
theorem withoutFirst_eq_some
    {base : Expr}
    {factors left : List Expr}
    (found : withoutFirst base factors = .ok (some left)) :
    ∃ factor, factor.equal base = .ok true ∧ factors.Perm (factor :: left) := by
  induction factors generalizing left with
  | nil => simp [withoutFirst] at found
  | cons factor rest inductive_step =>
    obtain ⟨isEqual, compared, found⟩ := Result.bind_eq_ok.1 found
    cases isEqual with
    | true =>
      cases found
      exact ⟨factor, compared, List.Perm.refl _⟩
    | false =>
      obtain ⟨later, searched, found⟩ := Result.bind_eq_ok.1 found
      cases later with
      | none => simp at found
      | some left' =>
        cases found
        obtain ⟨other, equal, permuted⟩ := inductive_step searched
        exact ⟨other, equal,
          (permuted.cons factor).trans (List.Perm.swap other factor left')⟩

theorem chainTerms_sum (e : Expr) :
    chainTerms .standard .sum e = liftM
      (openChain .sum (some .subtraction) true e) := rfl

theorem chainTerms_product (e : Expr) :
    chainTerms .standard .product e =
      liftM (openChain .product (some .division) true e) := rfl

section Multiples

variable {settings : Settings} (standard : settings.registry = .standard)
  (recursion : Recursion) (base target : Expr)

include standard

theorem multiple_product :
    multiple settings recursion .product base target =
      productMultiple .standard .product base target := by
  have plays :
      Operation.product.plays settings.registry.multiplicative = true := by
    rw [standard]
    rfl
  rw [multiple, if_pos plays, standard]

theorem multiple_power :
    multiple settings recursion .power base target =
      powerMultiple settings recursion base target := by
  have noProduct :
      Operation.power.plays settings.registry.multiplicative = false := by
    rw [standard]
    rfl
  have plays : Operation.power.plays settings.registry.exponential = true := by
    rw [standard]
    rfl
  rw [multiple, noProduct, plays]
  rfl

end Multiples

/-- A class of trees without quotients, blanks and doubles in which sums can be
collected. -/
structure SumClass (good : Expr -> Prop) : Prop where
  isOver : ∀ e, good e -> e.Over Operation.integral
  integral : ∀ e, good e -> e.IsIntegral
  int : ∀ n, good (.int n)
  sum : ∀ left right, good left -> good right -> good (.node .sum left right)
  product : ∀ left right, good left -> good right ->
    good (.node .product left right)
  factors : ∀ left right, good (.node .product left right) ->
    good left ∧ good right
  inner : ∀ e, good (.wrap e) -> good e

namespace SumClass

variable {good : Expr -> Prop} (sums : SumClass good)

include sums

theorem joinClosed_sum : Reading.JoinClosed .sum good where
  exact := fun e eGood => (sums.integral e eGood).isReal_eq_false
  joined := by
    intro a b e aGood bGood joined
    rcases Operation.join_cases (sums.integral a aGood).isReal_eq_false
      (sums.integral b bGood).isReal_eq_false joined
        with rfl | ⟨m, n, rfl, rfl, evaluated⟩
    · exact sums.sum a b aGood bGood
    · cases evaluated
      exact sums.int (m + n)

theorem joinClosed_product : Reading.JoinClosed .product good where
  exact := fun e eGood => (sums.integral e eGood).isReal_eq_false
  joined := by
    intro a b e aGood bGood joined
    rcases Operation.join_cases (sums.integral a aGood).isReal_eq_false
      (sums.integral b bGood).isReal_eq_false joined
        with rfl | ⟨m, n, rfl, rfl, evaluated⟩
    · exact sums.product a b aGood bGood
    · cases evaluated
      exact sums.int (m * n)

/-- The factors of a tree of the class belong to it. -/
theorem forall_factors
    {e : Expr}
    (eGood : good e)
    {upright : Bool}
    {factors : List Expr}
    (opened : openChain .product (some .division) upright e = .ok factors) :
    ∀ factor ∈ factors, good factor := by
  refine fun factor member =>
    (forall_of_openChain good sums.inner ?_ ?_ eGood factors opened factor
      member).1
  · intro operation left right nodeGood either
    obtain ⟨member, -, -⟩ := sums.isOver _ nodeGood
    simp only [Operation.integral, List.mem_cons, List.not_mem_nil, or_false]
      at member
    have isProduct : operation = .product := by
      rcases either with isFocus | ⟨i, present, isInverse⟩
      · exact Operation.eq_of_id_eq
          (by simp only [Operation.arithmetic, List.mem_cons]; tauto)
          (by simp [Operation.arithmetic]) isFocus
      · cases present
        rcases member with rfl | rfl | rfl | rfl <;>
          exact absurd isInverse (by decide)
    subst isProduct
    exact sums.factors left right nodeGood
  · intro i operation left right upright turned present isInverse
      nodeGood applied
    obtain ⟨member, -, -⟩ := sums.isOver _ nodeGood
    simp only [Operation.integral, List.mem_cons, List.not_mem_nil, or_false]
      at member
    cases present
    rcases member with rfl | rfl | rfl | rfl <;>
      exact absurd isInverse (by decide)

variable {R : Type*} [CommRing R] (reading : Reading R)
  (respects : reading.RespectsOn good)
  {invariant : Cache -> Prop} {settings : Settings}
  (standard : settings.registry = .standard)
  {recursion : Recursion} (kept : Expr -> Prop)
  (products : ∀ left right, kept (.node .product left right))

include respects standard

/-- A multiple of `base` is a factor that makes `target` out of it. -/
theorem multiple_keeps
    {base target : Expr}
    (baseGood : good base)
    (targetGood : good target) :
    (multiple settings recursion .product base target).Keeps invariant
      fun found =>
      ∀ factor, found = some factor ->
        good factor ∧ reading.value target =
          reading.value base * reading.value factor := by
  rw [multiple_product standard, productMultiple, chainTerms_product]
  refine Work.Keeps.bind (Work.Keeps.lift fun _ opened => opened)
    fun factors opened => ?_
  have factorsGood := sums.forall_factors targetGood opened
  have factorsValue := reading.prod_openChain (sums.isOver target targetGood)
    (sums.integral target targetGood) opened
  refine Work.Keeps.bind (Work.Keeps.lift fun _ searched => searched)
    fun found searched => ?_
  cases found with
  | none => exact Work.Keeps.pure (by simp)
  | some left =>
    obtain ⟨factor, equal, permuted⟩ := withoutFirst_eq_some searched
    have leftGood : ∀ e ∈ left, good e := fun e member =>
      factorsGood e (permuted.mem_iff.2 (List.mem_cons_of_mem factor member))
    have split : reading.value target =
        reading.value base * (left.map reading.value).prod := by
      rw [← factorsValue, (permuted.map reading.value).prod_eq, List.map_cons,
        List.prod_cons,
        respects factor base
          (factorsGood factor (permuted.mem_iff.2 List.mem_cons_self))
          baseGood equal]
    cases left with
    | nil =>
      refine Work.Keeps.pure ?_
      rintro _ ⟨⟩
      exact ⟨sums.int 1, by simpa using split⟩
    | cons first others =>
      refine Work.Keeps.bind (Work.Keeps.lift fun _ joined => joined)
        fun cofactor joined => ?_
      obtain ⟨cofactorGood, cofactorValue⟩ :=
        reading.value_joinAll_product sums.joinClosed_product leftGood joined
      refine Work.Keeps.pure ?_
      rintro _ ⟨⟩
      exact ⟨cofactorGood, by rw [split, cofactorValue]⟩

include products

/-- The value of a sum as an accounting.  A property of the terms is kept if all
products have it. -/
theorem accounting :
    Accounting invariant settings recursion ⟨.product, .sum⟩
      (fun e => good e ∧ kept e) good
      (fun terms => (terms.map reading.value).sum)
      (fun term coefficient rest =>
        reading.value term * reading.value coefficient +
          (rest.map reading.value).sum) where
  starts := by
    refine ⟨sums.int 1, fun term rest => ?_⟩
    simp
  repeats := by
    intro term other coefficient termGood otherGood coefficientGood
    refine Work.Keeps.mono
      (sums.multiple_keeps reading respects standard termGood.1 otherGood.1) ?_
    intro found repeated factor isFactor increased joined
    obtain ⟨factorGood, otherValue⟩ := repeated factor isFactor
    refine ⟨sums.joinClosed_sum.joined coefficient factor increased
      coefficientGood factorGood joined, fun rest => ?_⟩
    have increasedValue := reading.value_join_sum
      (sums.integral coefficient coefficientGood).isReal_eq_false
      (sums.integral factor factorGood).isReal_eq_false joined
    rw [increasedValue, List.map_cons, List.sum_cons, otherValue]
    ring
  passes := by
    intro term coefficient coefficient' other rest rest' same
    simp only [List.map_cons, List.sum_cons]
    rw [add_left_comm, same, add_left_comm]
  settles := by
    intro term coefficient termGood coefficientGood
    have value_of_isZero :=
      reading.value_of_isZero (sums.integral coefficient coefficientGood)
    have value_of_isOne :=
      reading.value_of_isOne (sums.integral coefficient coefficientGood)
    refine ⟨forall_scaled termGood
      ⟨sums.product term coefficient termGood.1 coefficientGood,
      products _ _⟩, fun rest rest' same => ?_⟩
    unfold scaled
    split
    · next isZero => simp_all
    · split
      · next isOne => simp_all
      · simp [same]
  reorders := fun terms terms' permuted => (permuted.map reading.value).sum_eq

/-- Collecting the terms of a sum preserves the value of the sum. -/
theorem collect_keeps
    (zero : kept (.int 0))
    {terms : List Expr}
    (allGood : ∀ term ∈ terms, good term ∧ kept term) :
    (collect settings recursion .sum terms).Keeps invariant fun collected =>
      collected ≠ [] ∧ (∀ term ∈ collected, good term ∧ kept term) ∧
        (collected.map reading.value).sum = (terms.map reading.value).sum := by
  have accounting :
      Accounting invariant settings recursion ⟨.product, .sum⟩ _ good _ _ :=
    sums.accounting reading respects standard kept products
  refine accounting.collect_keeps (.int 0) ?_ ?_ ?_ ?_ ⟨sums.int 0, zero⟩
    ?_ allGood
  · rw [standard]
    rfl
  · rw [standard]
    rfl
  · decide
  · rw [standard]
    rfl
  · intro vanishes
    simpa using vanishes

end SumClass
end Symbolic
