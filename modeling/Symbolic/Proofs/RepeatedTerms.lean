import Symbolic.Context
import Symbolic.Proofs.CollectEnds
import Symbolic.Proofs.TreeClass

/-!
# Copies of one term

A chain that consists of several copies of one term collects to a single one,
the term with the number of copies, if the term is found in its own copy.  Under
products that is so for every term that is no product or quotient itself.

A product or quotient is not found in its own copy: the copy is taken apart into
factors, and none of them is the whole term.  Such copies are left as they are,
so that `x*y + x*y` stays a sum of two terms.
-/

namespace Symbolic

/-! ## Collecting copies -/

/-- The number of several copies is neither zero nor one. -/
theorem Expr.isZero_count {count : Nat} (several : 2 ≤ count) :
    (int count).isZero = false := by
  rw [isZero, Number.isZero, beq_eq_false_iff_ne]
  omega

theorem Expr.isOne_count {count : Nat} (several : 2 ≤ count) :
    (int count).isOne = false := by
  rw [isOne, Number.isOne, beq_eq_false_iff_ne]
  omega

/-- Equal terms are in order. -/
theorem orderByLength_replicate
    {term : Expr}
    (noForeign : term.foreign? = none)
    (count : Nat) :
    orderByLength (.replicate count term) = .ok (.replicate count term) := by
  have nothing :
      (List.replicate count term).findSome? Expr.foreign? = none := by
    rw [List.findSome?_eq_none_iff]
    intro e member
    rw [List.eq_of_mem_replicate member, noForeign]
  rw [orderByLength, nothing]
  refine congrArg Except.ok ?_
  induction count with
  | zero => rfl
  | succ count inductive_step =>
    have later :
        (List.replicate count term).findSome? Expr.foreign? = none := by
      simp_all
    rw [List.replicate_succ, List.foldr_cons, inductive_step later]
    cases count with
    | zero => rfl
    | succ count => simp [List.replicate_succ, insertByLength]

section Copies

variable {invariant : Cache -> Prop} {expected : Error -> Prop}
  {settings : Settings}
  {recursion : Recursion} {promoted : Operation} {term : Expr}

section Repeats

variable (repeats :
  (multiple settings recursion promoted term term).Ends invariant expected
  (· = some (.int 1)))

include repeats

/-- Every copy of a term adds one to its coefficient. -/
theorem sweep_copies
    (count : Nat)
    (coefficient : Int) :
    (sweep settings recursion ⟨promoted, .sum⟩ term (.int coefficient)
        (.replicate count term)).Ends invariant expected fun swept =>
      swept.1 = .int (coefficient + count) ∧ swept.2.1 = [] := by
  induction count generalizing coefficient with
  | zero => exact .pure (by simp)
  | succ count inductive_step =>
    rw [List.replicate_succ, sweep]
    refine .bind repeats ?_
    rintro _ rfl
    have joined : Operation.sum.join (.int coefficient) (.int 1) =
        .ok (.int (coefficient + 1)) :=
      rfl
    refine .bind (.lift (.of_eq_ok joined rfl)) ?_
    rintro _ rfl
    refine .bind (inductive_step (coefficient + 1)) ?_
    rintro ⟨total, left, bound⟩ ⟨rfl, rfl⟩
    refine .pure ⟨?_, rfl⟩
    rw [Nat.cast_succ, add_right_comm, add_assoc]

/-- Two or more copies of a term are collected to the term with their number. -/
theorem collectOrdered_copies
    {count : Nat}
    (several : 2 ≤ count) :
    (collectOrdered settings recursion ⟨promoted, .sum⟩
      (.replicate count term)).Ends invariant
      expected (· = [.node promoted term (.int count)]) := by
  obtain ⟨later, rfl⟩ := Nat.exists_eq_add_of_le' several
  rw [List.replicate_succ, collectOrdered]
  refine .bind (sweep_copies repeats (later + 1) 1) ?_
  rintro ⟨coefficient, left, bound⟩ ⟨rfl, rfl⟩
  have nothing : (collectOrdered settings recursion ⟨promoted, .sum⟩ []).Ends
      invariant expected (· = []) := by
    rw [collectOrdered]
    exact .pure rfl
  refine .bind nothing ?_
  rintro _ rfl
  refine .pure ?_
  have counted : (1 : Int) + ((later + 1 : Nat) : Int) =
      ((later + 2 : Nat) : Int) := by omega
  simp only [counted, scaled, Expr.isZero_count several,
    Expr.isOne_count several, Bool.false_eq_true, if_false, List.append_nil]

end Repeats

section Lone

variable {returns : Prop} (lone :
  (multiple settings recursion promoted term term).Ends invariant
  expected fun found => found = none ∧ returns)

include lone

/-- Copies in which the term is not found are left. -/
theorem sweep_lone
    (count : Nat)
    (coefficient : Expr) :
    (sweep settings recursion ⟨promoted, .sum⟩ term coefficient
        (.replicate count term)).Ends invariant expected fun swept =>
      swept.1 = coefficient ∧ swept.2.1 = .replicate count term ∧
        (0 < count -> returns) := by
  induction count with
  | zero => exact .pure ⟨rfl, rfl, by simp⟩
  | succ count inductive_step =>
    rw [List.replicate_succ, sweep]
    refine .bind lone ?_
    rintro _ ⟨rfl, holds⟩
    refine .bind inductive_step ?_
    rintro ⟨total, left, bound⟩ ⟨rfl, rfl, -⟩
    exact .pure ⟨rfl, rfl, fun _ => holds⟩

theorem collectOrdered_lone (count : Nat) :
    (collectOrdered settings recursion ⟨promoted, .sum⟩
      (.replicate count term)).Ends invariant expected fun collected =>
        collected = .replicate count term ∧ (2 ≤ count -> returns) := by
  induction count with
  | zero =>
    rw [List.replicate_zero, collectOrdered]
    exact .pure ⟨rfl, by simp⟩
  | succ count inductive_step =>
    rw [List.replicate_succ, collectOrdered]
    refine .bind (sweep_lone lone count (.int 1)) ?_
    rintro ⟨coefficient, left, bound⟩ ⟨rfl, rfl, holds⟩
    refine .bind inductive_step ?_
    rintro _ ⟨rfl, -⟩
    exact .pure ⟨rfl, fun several => holds (by omega)⟩

end Lone

end Copies

namespace StandardChain

variable {focus promoted : Operation} {inverse : Inverse} {unit : Int}
  (chain : StandardChain focus promoted inverse unit)
  {invariant : Cache -> Prop}
  {expected : Error -> Prop} {settings : Settings}
  (standard : settings.registry = .standard)
  {recursion : Recursion} {term : Expr}

include chain standard

/-- Copies of a term are collected as they are in their given order. -/
theorem collect_replicate
    (noForeign : term.foreign? = none)
    {count : Nat}
    (several : 2 ≤ count)
    {post : List Expr -> Prop}
    (collects : (collectOrdered settings recursion ⟨promoted, .sum⟩
      (.replicate count term)).Ends
      invariant expected fun collected => collected ≠ [] ∧ post collected) :
    (collect settings recursion focus (.replicate count term)).Ends invariant
      expected post := by
  have promotes : promote settings.registry focus = pure promoted := by
    rw [standard]
    cases chain <;> rfl
  have different : promoted.id ≠ focus.id := by
    cases chain <;> decide
  have notEmpty : (List.replicate count term).isEmpty = false := by
    rw [List.isEmpty_eq_false_iff, Ne, List.replicate_eq_nil_iff]
    omega
  unfold collect
  rw [notEmpty, promotes, pure_bind,
    show settings.registry.additive = some .sum by
    rw [standard]; rfl]
  simp only [Bool.false_eq_true, if_false, if_neg different]
  refine .bind (.lift (.of_eq_ok (orderByLength_replicate noForeign count) rfl))
    ?_
  rintro _ rfl
  refine .bind collects fun collected ⟨present, isPost⟩ => ?_
  rw [if_neg (by simpa using present)]
  refine .bind (.pure rfl) ?_
  rintro _ rfl
  exact .bind (.note _) fun _ _ => .pure isPost

end StandardChain

/-! ## Finding a term in its copy -/

/-- The terms of a chain have no wrapper around them. -/
theorem unwrap_of_openChain
    {focus : Operation}
    {inverse : Option Inverse}
    {upright : Bool}
    {e : Expr} :
    ∀ terms, openChain focus inverse upright e = .ok terms ->
      ∀ term ∈ terms, term.unwrap = term := by
  have single {e : Expr} (bare : e.unwrap = e) :
      ∀ terms, (.ok [e] : Result (List Expr)) = .ok terms ->
        ∀ term ∈ terms, term.unwrap = term := by
    rintro terms ⟨⟩ term member
    obtain rfl := List.mem_singleton.1 member
    exact bare
  fun_induction openChain focus inverse upright e with
  | case1 upright => simp
  | case4 upright inner inductive_step => exact inductive_step
  | case5 upright object => simp
  | case6 upright operation left right same leftStep rightStep =>
    exact Result.forall_mem_append leftStep rightStep
  | case8 upright operation left right different i present same failure failed => simp
  | case9 upright operation left right different i present same turned applied keptStep
      turnedStep =>
    subst present
    exact Result.forall_mem_append keptStep turnedStep
  | _ => exact single rfl

/-- What has no foreign objects is not left by opening chains. -/
theorem ChainClass.comparable : ChainClass fun e => e.foreign? = none where
  const := fun _ => rfl
  inner := fun _ noForeign => noForeign
  operands := fun _ _ _ noForeign => Option.or_eq_none_iff.1 noForeign
  group :=
    fun _ _ _ _ noLeft noRight => Option.or_eq_none_iff.2 ⟨noLeft, noRight⟩

/-- The tree is a product or a quotient, perhaps with wrappers around it. -/
def Expr.isProductOrQuotient (e : Expr) : Bool :=
  e.unwrap.isUnder .product || e.unwrap.isUnder .quotient

/-- No factor of a product or quotient is equal to it.  An equal factor would be
a node of the chain. -/
theorem unequal_factor
    {term : Expr}
    (noForeign : term.foreign? = none)
    (compound : term.isProductOrQuotient = true)
    {factors : List Expr}
    (opened : openChain .product (some .division) true term = .ok factors)
    {factor : Expr}
    (member : factor ∈ factors) :
    factor.equal term = .ok false := by
  obtain ⟨noForeign', isTerm⟩ :=
    ChainClass.comparable.forall_terms noForeign factors opened factor member
  obtain ⟨isEqual, compared⟩ := Expr.exists_equal_eq_ok noForeign' noForeign
  cases isEqual with
  | false => exact compared
  | true =>
    exfalso
    have compared := Expr.equal_symm compared
    rw [← Expr.apply_unwrap (f := Expr.equal) (fun _ => rfl) term] at compared
    unfold Expr.isProductOrQuotient at compound
    cases root : term.unwrap with
    | node operation left right =>
      rw [root] at compound compared
      obtain ⟨operation', left', right', unwrapped, sameId, -, -⟩ :=
        Expr.exists_node_of_equal compared
      rw [unwrap_of_openChain factors opened factor member] at unwrapped
      obtain ⟨noProduct, noQuotient⟩ := isTerm operation' left' right' unwrapped
      simp only [Expr.isUnder, Bool.or_eq_true, beq_iff_eq, sameId] at compound
      exact compound.elim noProduct (noQuotient .division rfl)
    | _ => simp [root, Expr.isUnder] at compound

theorem withoutFirst_eq_none
    {base : Expr}
    {factors : List Expr}
    (unequal : ∀ factor ∈ factors, factor.equal base = .ok false) :
    withoutFirst base factors = .ok none := by
  induction factors with
  | nil => rfl
  | cons factor rest inductive_step =>
    obtain ⟨unequalFactor, unequalRest⟩ := List.forall_mem_cons.1 unequal
    rw [withoutFirst, unequalFactor, Result.ok_bind, inductive_step unequalRest]
    rfl

/-- What is no product or quotient has itself as its only factor. -/
theorem openChain_product_single
    {term : Expr}
    (noForeign : term.foreign? = none)
    (noBlank : term.unwrap ≠ .blank)
    (single : term.isProductOrQuotient = false) :
    openChain .product (some .division) true term = .ok [term.unwrap] := by
  induction term with
  | wrap inner inductive_step =>
    rw [openChain_wrap]
    exact inductive_step noForeign noBlank single
  | node operation left right =>
    simp only [Expr.isProductOrQuotient, Expr.unwrap, Expr.isUnder,
      Bool.or_eq_false_iff, beq_eq_false_iff_ne] at single
    refine openChain_other single.1 ?_
    rintro _ ⟨⟩
    exact single.2
  | blank => exact absurd rfl noBlank
  | foreign object => cases noForeign
  | const value => exact openChain_const value
  | var name => exact openChain_var name

section Multiples

variable {invariant : Cache -> Prop} {settings : Settings}
  (standard : settings.registry = .standard) (recursion : Recursion)
  {term : Expr} (noForeign : term.foreign? = none)

include standard noForeign

/-- What is no product or quotient repeats itself once. -/
theorem multiple_self
    (noBlank : term.unwrap ≠ .blank)
    (single : term.isProductOrQuotient = false) :
    (multiple settings recursion .product term term).Ends invariant
      (fun _ => False) (· = some (.int 1)) := by
  have opened := openChain_product_single noForeign noBlank single
  have equal : term.unwrap.equal term = .ok true := by
    rw [Expr.apply_unwrap (f := Expr.equal) (fun _ => rfl) term]
    exact Expr.equal_self noForeign
  have found : withoutFirst term [term.unwrap] = .ok (some []) := by
    rw [withoutFirst, equal]
    rfl
  rw [multiple_product standard, productMultiple, chainTerms_product]
  refine .bind (.lift (.of_eq_ok opened rfl)) ?_
  rintro _ rfl
  refine .bind (.lift (.of_eq_ok found rfl)) ?_
  rintro _ rfl
  exact .pure rfl

/-- A product or quotient does not repeat itself, or its factors cannot be
found. -/
theorem multiple_self_of_product
    (compound : term.isProductOrQuotient = true) :
    (multiple settings recursion .product term term).Ends invariant
      (openChain .product (some .division) true term = .error ·)
      fun found => found = none ∧
        ∃ factors, openChain .product (some .division) true term =
          .ok factors := by
  rw [multiple_product standard, productMultiple, chainTerms_product]
  have opens : (openChain .product (some .division) true term).Ends
      (openChain .product (some .division) true term = .error ·)
      (openChain .product (some .division) true term = .ok ·) := by
    cases openChain .product (some .division) true term <;> exact rfl
  refine .bind (.lift opens) fun factors opened => ?_
  have notFound : withoutFirst term factors = .ok none :=
    withoutFirst_eq_none fun factor => unequal_factor noForeign compound opened
  refine .bind (.lift (.of_eq_ok notFound rfl)) ?_
  rintro _ rfl
  exact .pure ⟨rfl, factors, opened⟩

end Multiples

theorem openChain_product_vars (a b : String) :
    openChain .product (some .division) true
      (.node .product (.var a) (.var b)) =
      .ok [.var a, .var b] := by
  rw [openChain_focus rfl, openChain_var, openChain_var]
  rfl

namespace Context

section Copies

variable {context : Context} (standard : context.settings.registry = .standard)
  {term : Expr}
  (noForeign : term.foreign? = none) {count : Nat} (several : 2 ≤ count)
  (memory : Memory)

include standard noForeign several

theorem collect_copies_of_single
    (noBlank : term.unwrap ≠ .blank)
    (single : term.isProductOrQuotient = false) :
    ((context.collect .sum (.replicate count term)).outcome memory).1 =
      .ok [.node .product term (.int count)] := by
  have ends : (context.collect .sum (.replicate count term)).Ends
      (fun _ => True)
      (fun _ => False) (· = [.node .product term (.int count)]) := by
    refine StandardChain.sum.collect_replicate standard noForeign several ?_
    refine (collectOrdered_copies
      (multiple_self standard context.recursion noForeign noBlank
      single) several).mono ?_
    rintro _ rfl
    exact ⟨by simp, rfl⟩
  obtain ⟨collected, returned, rfl⟩ : ∃ collected,
      ((context.collect .sum (.replicate count term)).outcome memory).1 =
        .ok collected ∧
        collected = [.node .product term (.int count)] := ends.exists_ok trivial
  exact returned

theorem collect_copies_of_product (compound : term.isProductOrQuotient = true) :
    ((context.collect .sum (.replicate count term)).outcome memory).1 =
      (fun _ => .replicate count term) <$>
        openChain .product (some .division) true term := by
  have ends : (context.collect .sum (.replicate count term)).Ends
      (fun _ => True) (openChain .product (some .division) true term = .error ·)
      fun collected => collected = .replicate count term ∧
        ∃ factors, openChain .product (some .division) true term =
          .ok factors := by
    refine StandardChain.sum.collect_replicate standard noForeign several ?_
    refine (collectOrdered_lone
      (multiple_self_of_product standard context.recursion noForeign
      compound) count).mono ?_
    rintro _ ⟨rfl, opens⟩
    refine ⟨?_, rfl, opens several⟩
    rw [Ne, List.replicate_eq_nil_iff]
    omega
  have outcome :
      ((context.collect .sum (.replicate count term)).outcome memory).1.Ends _
      _ :=
    ends.outcome trivial
  cases reached :
    ((context.collect .sum (.replicate count term)).outcome memory).1 with
  | ok collected =>
    obtain ⟨rfl, factors, opened⟩ := outcome.returned reached
    rw [opened]
    rfl
  | error failure =>
    rw [outcome.failed reached]
    rfl

/-- Two or more copies of a term of a sum are collected to a single one, the
term times the number of copies, unless the term is a product or a quotient.
Copies of such a term are left as they are, or the failure of opening its
factors is reported. -/
theorem collect_copies (noBlank : term.unwrap ≠ .blank) :
    ((context.collect .sum (.replicate count term)).outcome memory).1 =
      if term.isProductOrQuotient then
        (fun _ => .replicate count term) <$>
          openChain .product (some .division) true term
      else .ok [.node .product term (.int count)] := by
  split
  · next compound =>
      exact collect_copies_of_product standard noForeign several memory compound
  · next single =>
    exact collect_copies_of_single standard noForeign several memory noBlank
      (by simpa using single)

end Copies

/-- Three copies of `x^2` are collected to `x^2*3`, and two copies of `x*y` are
left. -/
theorem collect_copies_squares :
    (((ofSettings .standard).collect .sum
        (.replicate 3 (.node .power (.var "x") (.int 2)))).outcome .empty).1 =
      .ok [.node .product (.node .power (.var "x") (.int 2)) (.int 3)] ∧
    (((ofSettings .standard).collect .sum
        (.replicate 2 (.node .product (.var "x") (.var "y")))).outcome
          .empty).1 =
      .ok [.node .product (.var "x") (.var "y"),
        .node .product (.var "x") (.var "y")] := by
  constructor
  · exact @collect_copies (ofSettings .standard) rfl
      (.node .power (.var "x") (.int 2)) rfl 3 (by decide) .empty (by rintro ⟨⟩)
  · have collected := @collect_copies (ofSettings .standard) rfl
      (.node .product (.var "x") (.var "y")) rfl 2 (by decide) .empty
        (by rintro ⟨⟩)
    rw [openChain_product_vars] at collected
    exact collected

/-- The two terms of `x*y + x*y` are the same single term, and are not
collected. -/
theorem collect_of_equal_products :
    (∀ memory, (chainTerms .standard .sum
      (.node .product (.var "x") (.var "y"))).outcome memory =
      (.ok [.node .product (.var "x") (.var "y")], memory)) ∧
    (((ofSettings .standard).collect .sum
        (.replicate 2 (.node .product (.var "x") (.var "y")))).outcome
          .empty).1 ≠
      .ok [.node .product (.node .product (.var "x") (.var "y")) (.int 2)] := by
  constructor
  · exact StandardChain.sum.outcome_chainTerms
      (openChain_other (by decide) (by rintro _ ⟨⟩; decide))
  · rw [collect_copies_of_product rfl rfl (by decide) .empty rfl,
      openChain_product_vars]
    rintro ⟨⟩

end Context
end Symbolic
