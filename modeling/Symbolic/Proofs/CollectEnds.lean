import Symbolic.Proofs.CollectValue
import Symbolic.Proofs.FailureLogic

/-!
# How collecting ends

Collecting repeated terms fails only where one of its steps does: where a term
is compared with another one, where a number is added to a coefficient, or where
what is left of a product is joined.  `Collects` says that these steps fail only
with expected errors and do not lead out of a class of trees.  Then the
collection of all terms fails only with expected errors.

If no error is expected, collecting returns a result.
-/

namespace Symbolic

/-- A computation for which no failure is expected returns a result. -/
theorem Work.Ends.exists_ok
    {α : Type}
    {invariant : Cache -> Prop}
    {work : Work α}
    {post : α -> Prop}
    (ends : work.Ends invariant (fun _ => False) post)
    {memory : Memory}
    (holds : invariant memory.cache) :
    ∃ a, (work.outcome memory).1 = .ok a ∧ post a := by
  have outcome := ends.outcome holds
  cases returned : (work.outcome memory).1 with
  | ok a => exact ⟨a, rfl, outcome.returned returned⟩
  | error failure => exact (outcome.failed returned).elim

variable {invariant : Cache -> Prop} {expected : Error -> Prop}
  {good : Expr -> Prop}

/-! ## Joining -/

namespace Operation

variable {operation : Operation}
  (joins : ∀ a b, good a -> good b -> (operation.join a b).Ends expected good)

include joins

theorem joinPairs_ends
    {terms : List Expr}
    (allGood : ∀ term ∈ terms, good term) :
    (operation.joinPairs terms).Ends expected fun joined => ∀ term ∈ joined,
      good term := by
  fun_induction joinPairs operation terms with
  | case1 first second rest inductive_step =>
    obtain ⟨firstGood, laterGood⟩ := List.forall_mem_cons.1 allGood
    obtain ⟨secondGood, restGood⟩ := List.forall_mem_cons.1 laterGood
    refine .bind (joins first second firstGood secondGood)
      fun head headGood => ?_
    refine .bind (inductive_step restGood) fun others othersGood => ?_
    exact List.forall_mem_cons.2 ⟨headGood, othersGood⟩
  | case2 terms notTwo => exact allGood

/-- Joining terms never finds that there are none, if there are some. -/
theorem joinAll_ends
    {terms : List Expr}
    (present : terms ≠ [])
    (allGood : ∀ term ∈ terms, good term) :
    (operation.joinAll terms).Ends expected good := by
  fun_induction joinAll operation terms with
  | case1 => exact absurd rfl present
  | case2 term => exact allGood term List.mem_cons_self
  | case3 first second rest failure round =>
    exact (joinPairs_ends joins allGood).failed round
  | case4 first second rest paired round inductive_step =>
    refine inductive_step ?_ ((joinPairs_ends joins allGood).returned round)
    rintro rfl
    have := operation.length_of_joinPairs _ _ round
    simp only [List.length_nil, List.length_cons] at this
    omega

end Operation

/-! ## Multiples -/

section Multiples

variable (comparable : ∀ e, good e -> e.foreign? = none)

include comparable

theorem withoutFirst_ends
    {base : Expr}
    (baseGood : good base)
    {factors : List Expr}
    (allGood : ∀ factor ∈ factors, good factor) :
    (withoutFirst base factors).Ends expected fun found =>
      ∀ left, found = some left -> ∀ factor ∈ left, good factor := by
  induction factors with
  | nil =>
    rintro left ⟨⟩
  | cons factor rest inductive_step =>
    obtain ⟨factorGood, restGood⟩ := List.forall_mem_cons.1 allGood
    obtain ⟨isEqual, compared⟩ :=
      Expr.exists_equal_eq_ok (comparable factor factorGood)
        (comparable base baseGood)
    rw [withoutFirst, compared, Result.ok_bind]
    cases isEqual with
    | true =>
      rintro left ⟨⟩
      exact restGood
    | false =>
      refine .bind (inductive_step restGood)
        fun found foundGood left isLeft => ?_
      obtain ⟨later, rfl, rfl⟩ := Option.map_eq_some_iff.1 isLeft
      exact List.forall_mem_cons.2 ⟨factorGood, foundGood later rfl⟩

theorem productMultiple_ends
    {registry : Registry}
    {operation : Operation}
    {base target : Expr}
    (baseGood : good base)
    (opens : (chainTerms registry operation target).Ends invariant expected
      fun factors =>
      ∀ factor ∈ factors, good factor)
    (joins : ∀ a b, good a -> good b -> (operation.join a b).Ends expected good)
    (one : good (.int 1)) :
    (productMultiple registry operation base target).Ends invariant expected
      fun found =>
      ∀ factor, found = some factor -> good factor := by
  unfold productMultiple
  refine .bind opens fun factors factorsGood => ?_
  refine .bind (.lift (withoutFirst_ends comparable baseGood factorsGood))
    fun found leftGood => ?_
  match found, leftGood with
  | none, _ => exact .pure (by simp)
  | some [], _ =>
    refine .pure ?_
    rintro factor ⟨⟩
    exact one
  | some (first :: others), leftGood =>
    refine .bind (.lift
      (Operation.joinAll_ends joins (by simp) (leftGood _ rfl)))
      fun cofactor cofactorGood => .pure ?_
    rintro factor ⟨⟩
    exact cofactorGood

/-- Terms that can be compared can be ordered. -/
theorem orderByLength_ends
    {terms : List Expr}
    (allGood : ∀ term ∈ terms, good term) :
    (orderByLength terms).Ends expected fun ordered => ∀ term ∈ ordered,
      good term := by
  cases returned : orderByLength terms with
  | ok ordered =>
    exact fun term member =>
      allGood term ((orderByLength_perm returned).mem_iff.1 member)
  | error failure =>
    have noForeign : terms.findSome? Expr.foreign? = none :=
      List.findSome?_eq_none_iff.2 fun term member =>
        comparable term (allGood term member)
    rw [orderByLength, noForeign] at returned
    cases returned

end Multiples

/-! ## Collecting -/

/-- The steps of collecting fail only with expected errors.  The terms stay in
one class of trees and their coefficients in another one. -/
structure Collects
    (invariant : Cache -> Prop)
    (expected : Error -> Prop)
    (settings : Settings)
    (recursion : Recursion)
    (collection : Collection)
    (good isCoefficient : Expr -> Prop) : Prop where
  one : isCoefficient (.int 1)
  finds : ∀ term other, good term -> good other ->
    (multiple settings recursion collection.promoted term other).Ends invariant
      expected
      fun found => ∀ factor, found = some factor -> isCoefficient factor
  adds : ∀ coefficient factor, isCoefficient coefficient ->
    isCoefficient factor ->
    (collection.additive.join coefficient factor).Ends expected isCoefficient
  scales : ∀ term coefficient, good term -> isCoefficient coefficient ->
    ∀ e ∈ scaled collection.promoted term coefficient, good e

namespace Collects

variable {settings : Settings} {recursion : Recursion} {collection : Collection}
  {isCoefficient : Expr -> Prop}

section Collection

variable
  (collects : Collects invariant expected settings recursion collection good
    isCoefficient)

include collects

theorem sweep_ends
    {term coefficient : Expr}
    (termGood : good term)
    (coefficientGood : isCoefficient coefficient)
    {later : List Expr}
    (laterGood : ∀ other ∈ later, good other) :
    (sweep settings recursion collection term coefficient later).Ends invariant
      expected
      fun swept => isCoefficient swept.1 ∧ ∀ other ∈ swept.2.1, good other := by
  induction later generalizing coefficient with
  | nil => exact .pure ⟨coefficientGood, by simp⟩
  | cons other rest inductive_step =>
    obtain ⟨otherGood, restGood⟩ := List.forall_mem_cons.1 laterGood
    rw [sweep]
    refine .bind (collects.finds term other termGood otherGood)
      fun found foundGood => ?_
    cases found with
    | none =>
      refine .bind (inductive_step coefficientGood restGood) ?_
      rintro ⟨total, left, bound⟩ ⟨totalGood, leftGood⟩
      exact .pure ⟨totalGood, List.forall_mem_cons.2 ⟨otherGood, leftGood⟩⟩
    | some factor =>
      refine .bind (.lift (collects.adds coefficient factor coefficientGood
        (foundGood factor rfl))) fun increased increasedGood => ?_
      refine .bind (inductive_step increasedGood restGood) ?_
      rintro ⟨total, left, bound⟩ sweptGood
      exact .pure sweptGood

/-- Collecting ends as expected if every multiple does.  The recursion is on
what a sweep leaves, which is not longer than what it was given. -/
theorem collectOrdered_ends
    {terms : List Expr}
    (allGood : ∀ term ∈ terms, good term) :
    (collectOrdered settings recursion collection terms).Ends invariant expected
      fun collected =>
      ∀ term ∈ collected, good term := by
  induction length : terms.length using Nat.strongRecOn generalizing terms with
  | ind count inductive_step =>
    cases terms with
    | nil =>
      rw [collectOrdered]
      exact .pure (by simp)
    | cons term later =>
      obtain ⟨termGood, laterGood⟩ := List.forall_mem_cons.1 allGood
      rw [collectOrdered]
      refine .bind (collects.sweep_ends termGood collects.one laterGood) ?_
      rintro ⟨coefficient, left, bound⟩ ⟨coefficientGood, leftGood⟩
      have shorter : left.length < count := by
        simp only [← length, List.length_cons]
        omega
      refine .bind (inductive_step left.length shorter leftGood rfl)
        fun others othersGood => .pure ?_
      exact List.forall_mem_append.2
        ⟨collects.scales term coefficient termGood coefficientGood, othersGood⟩

end Collection

/-- Collecting the terms of a chain that has some. -/
theorem collect_ends
    {focus : Operation}
    (collects : ∀ promoted additive,
      settings.registry.promotion? focus = some promoted ->
      settings.registry.additive = some additive -> promoted.id ≠ focus.id ->
        Collects invariant expected settings recursion ⟨promoted, additive⟩ good
          isCoefficient)
    (comparable : ∀ e, good e -> e.foreign? = none)
    (identities : ∀ value, settings.registry.identity? focus = some value ->
      good value)
    {terms : List Expr}
    (present : terms ≠ [])
    (allGood : ∀ term ∈ terms, good term) :
    (collect settings recursion focus terms).Ends invariant expected
      fun collected =>
      ∀ term ∈ collected, good term := by
  have promotes : (promote settings.registry focus).Ends invariant expected
      fun promoted =>
      promoted = focus ∨ settings.registry.promotion? focus =
        some promoted := by
    unfold promote
    split
    · next promoted isPromoted => exact .pure (.inr isPromoted)
    · exact .bind (.note _) fun _ _ => .pure (.inl rfl)
  have identifies :
      (identity settings.registry focus).Ends invariant expected fun found =>
      ∀ e ∈ found.toList, good e := by
    unfold identity
    split
    · next value isIdentity =>
        exact .pure (by simpa using identities value isIdentity)
    · exact .bind (.note _) fun _ _ => .pure (by simp)
  unfold collect
  rw [if_neg (by simpa using present)]
  refine .bind promotes fun promoted isPromoted => ?_
  split
  · exact .pure allGood
  · next additive isAdditive =>
    split
    · exact .pure allGood
    · next different =>
      have isPromotion : settings.registry.promotion? focus = some promoted :=
        isPromoted.resolve_left fun same =>
          different (congrArg Operation.id same)
      have collects :=
        collects promoted additive isPromotion isAdditive different
      refine .bind (.lift (orderByLength_ends comparable allGood))
        fun ordered orderedGood => ?_
      refine .bind (collects.collectOrdered_ends orderedGood)
        fun collected collectedGood => ?_
      split
      · exact .bind (.map identifies) fun _ remainingGood =>
          .bind (.note _) fun _ _ => .pure remainingGood
      · have remains :
            (pure collected : Work (List Expr)).Ends invariant expected
            fun remaining => ∀ term ∈ remaining, good term :=
              .pure collectedGood
        exact .bind remains fun _ remainingGood =>
          .bind (.note _) fun _ _ => .pure remainingGood

end Collects
end Symbolic
