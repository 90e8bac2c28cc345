import Symbolic.Proofs.Lockstep
import Symbolic.Proofs.SeenOperands

/-!
# Chains of alike trees

The chains of trees that are alike are opened to terms that are alike one by
one, and these have no wrappers around their roots.  Whatever is done with the
terms afterwards then sees the same on both sides: they are ordered by
fingerprints, compared as trees, joined, and simplified, by computations that
are in lockstep by assumption.  So the chains are reduced to trees that are
alike.
-/

namespace Symbolic

open Symbolic.Expr (Alike Matched)
open Symbolic.Result (Both)

/-- The four operations are told apart by their ids. -/
theorem Operation.isSame_of_arithmetic
    {operation other : Operation}
    (arithmetic : operation ∈ arithmetic)
    (arithmetic' : other ∈ Operation.arithmetic) :
    operation.isSame other = (operation.id == other.id) := by
  rcases mem_arithmetic_iff.1 arithmetic with rfl | rfl | rfl | rfl | rfl <;>
    rcases mem_arithmetic_iff.1 arithmetic' with
      rfl | rfl | rfl | rfl | rfl <;> rfl

/-! ## Opening -/

namespace Transform

/-- What is no constant is negated by a product, unless it is a difference. -/
theorem negateTerm_eq
    {e : Expr}
    (isOver : e.Over Operation.arithmetic)
    (notConst : e.isConst = false) :
    negateTerm e =
      if e.isNodeOf .difference then e else .node .product (.int (-1)) e := by
  cases e with
  | const value => cases notConst
  | node operation left right =>
    rw [negateTerm, Operation.isSame_of_arithmetic isOver.1
      (by simp [Operation.arithmetic])]
    rfl
  | _ => rfl

/-- What is no constant is inverted by a power, unless it is a quotient. -/
theorem invertFactor_eq
    {e : Expr}
    (isOver : e.Over Operation.arithmetic)
    (notConst : e.isConst = false) :
    invertFactor e =
      .ok (if e.isNodeOf .quotient then e else .node .power e (.int (-1))) := by
  cases e with
  | const value => cases notConst
  | node operation left right =>
    rw [invertFactor,
      Operation.isSame_of_arithmetic isOver.1 (by simp [Operation.arithmetic])]
    simp only [Expr.isNodeOf]
    split <;> simp_all
  | _ => rfl

end Transform

/-- A chain does not see wrappers around a root. -/
theorem openChain_unwrap
    (focus : Operation)
    (inverse : Option Inverse)
    (upright : Bool)
    (e : Expr) :
    openChain focus inverse upright e.unwrap =
      openChain focus inverse upright e :=
  Expr.apply_unwrap openChain_wrap e

namespace StandardChain

variable {focus promoted : Operation} {inverse : Inverse} {unit : Int}
  (chain : StandardChain focus promoted inverse unit)

include chain

theorem inverse_arithmetic : inverse.operation ∈ Operation.arithmetic := by
  cases chain <;> simp [Operation.arithmetic, Inverse.subtraction,
    Inverse.division]

/-- An inverse operation sees of both operands what its transform depends on. -/
theorem sees_operands
    {left left' right right' : Expr}
    (sameSeen : inverse.operation.sees left right =
      inverse.operation.sees left' right') :
    (left.isConst = left'.isConst ∧
      left.isNodeOf inverse.operation = left'.isNodeOf inverse.operation) ∧
    right.isConst = right'.isConst ∧
      right.isNodeOf inverse.operation = right'.isNodeOf inverse.operation := by
  cases chain with
  | sum =>
    have seen : [_, _, _, _] = [_, _, _, _] := sameSeen
    simp only [List.cons.injEq, and_true] at seen
    exact ⟨⟨seen.1, seen.2.1⟩, seen.2.2⟩
  | product =>
    have seen : [_, _, _, _, _] = [_, _, _, _, _] := sameSeen
    simp only [List.cons.injEq, and_true] at seen
    exact ⟨⟨seen.1, seen.2.1⟩, seen.2.2.1, seen.2.2.2.1⟩

/-- Alike terms of which an inverse operation sees the same are transformed
alike. -/
theorem transform_both
    {e e' : Expr}
    (alike : e.Alike e')
    (sameConst : e.isConst = e'.isConst)
    (sameNode : e.isNodeOf inverse.operation = e'.isNodeOf inverse.operation) :
    Both Alike (inverse.transform.apply e) (inverse.transform.apply e') := by
  cases isConst : e.isConst with
  | true =>
    obtain rfl := alike.eq_of_isConst isConst (sameConst ▸ isConst)
    refine Both.refl fun turned applied => ?_
    refine (Matched.of_isConst ?_).alike
    rcases Transform.apply_cases applied with
      ⟨-, isConst'⟩ | rfl | ⟨notConst, -⟩ | ⟨notConst, -⟩
    · exact isConst'
    · exact isConst
    · exact absurd isConst (by simp [notConst])
    · exact absurd isConst (by simp [notConst])
  | false =>
    have isConst' : e'.isConst = false := sameConst ▸ isConst
    cases chain with
    | sum =>
      simp only [Inverse.subtraction, Transform.apply,
        Transform.negateTerm_eq alike.isOver isConst,
        Transform.negateTerm_eq alike.isOver' isConst'] at sameNode ⊢
      rw [sameNode]
      split
      · exact alike
      · exact .node_of_sees_nothing (.inr rfl) (Matched.const _).alike alike
    | product =>
      simp only [Inverse.division, Transform.apply,
        Transform.invertFactor_eq alike.isOver isConst,
        Transform.invertFactor_eq alike.isOver' isConst'] at sameNode ⊢
      rw [sameNode]
      split
      · exact alike
      · exact .node (by simp [Operation.arithmetic]) alike
          (Matched.const _).alike rfl

/-- The operands of an inverse node, one of them transformed, whichever way it
is seen. -/
theorem turned_both
    {left left' right right' : Expr}
    (leftAlike : left.Alike left')
    (rightAlike : right.Alike right')
    (sameSees : inverse.operation.sees left right =
      inverse.operation.sees left' right')
    (upright : Bool) :
    (if upright then left else right).Alike
      (if upright then left' else right') ∧
      Both Alike (inverse.transform.apply (if upright then right else left))
        (inverse.transform.apply (if upright then right' else left')) := by
  obtain ⟨⟨leftConst, leftNode⟩, rightConst, rightNode⟩ :=
    chain.sees_operands sameSees
  cases upright with
  | true =>
    exact ⟨leftAlike, chain.transform_both rightAlike rightConst rightNode⟩
  | false =>
    exact ⟨rightAlike, chain.transform_both leftAlike leftConst leftNode⟩

/-- The chains of alike trees have alike terms. -/
theorem openChain_both
    (upright : Bool)
    {e e' : Expr}
    (alike : e.Alike e') :
    Both (List.Forall₂ Matched) (openChain focus (some inverse) upright e)
      (openChain focus (some inverse) upright e') := by
  have matched := alike.matched
  rw [← openChain_unwrap _ _ _ e']
  generalize e'.unwrap = root at matched
  clear alike e'
  fun_induction openChain focus (some inverse) upright e generalizing root with
  | case1 upright =>
    cases matched
    rw [openChain_blank]
    exact .nil
  | case2 upright value =>
    cases matched
    rw [openChain_const]
    exact .cons (.const value) .nil
  | case3 upright name =>
    cases matched
    rw [openChain_var]
    exact .cons (.var name) .nil
  | case4 upright inner inductive_step => exact inductive_step root matched
  | case5 upright object => cases matched
  | case6 upright operation left right same leftStep rightStep =>
    cases matched with
    | node arithmetic leftAlike rightAlike sameSees =>
      have first := leftStep _ leftAlike.matched
      have second := rightStep _ rightAlike.matched
      rw [openChain_unwrap] at first second
      rw [openChain_focus same]
      exact first.append second
  | case7 upright operation left right different none => cases none
  | case8 upright operation left right different i present same failure failed =>
    cases present
    rw [dite_eq_ite] at failed
    cases matched with
    | node arithmetic leftAlike rightAlike sameSees =>
      obtain rfl :=
        Operation.eq_of_id_eq arithmetic chain.inverse_arithmetic same
      have turned := (chain.turned_both leftAlike rightAlike sameSees upright).2
      rw [failed] at turned
      obtain ⟨failure', failed', alike⟩ := turned.exists_error
      rw [openChain_inverse_failed different rfl failed']
      exact alike
  | case9 upright operation left right different i present same turned applied keptStep
      turnedStep =>
    cases present
    rw [dite_eq_ite] at applied
    cases matched with
    | node arithmetic leftAlike rightAlike sameSees =>
      obtain rfl :=
        Operation.eq_of_id_eq arithmetic chain.inverse_arithmetic same
      obtain ⟨keptAlike, turnedBoth⟩ :=
        chain.turned_both leftAlike rightAlike sameSees upright
      rw [applied] at turnedBoth
      obtain ⟨turned', applied', turnedAlike⟩ := turnedBoth.exists_ok
      have first := keptStep _ keptAlike.matched
      have second := turnedStep _ turnedAlike.matched
      rw [openChain_unwrap] at first second
      rw [openChain_inverse different rfl applied']
      exact first.append second
  | case10 upright operation left right different i present other =>
    cases present
    cases matched with
    | node arithmetic leftAlike rightAlike sameSees =>
      rw [openChain_other different (by rintro _ ⟨⟩; exact other)]
      exact .cons (.node arithmetic leftAlike rightAlike sameSees) .nil

end StandardChain

/-! ## Joining and ordering -/

namespace Operation

theorem joinAll_cons_cons
    (operation : Operation)
    (first second : Expr)
    (rest : List Expr) :
    operation.joinAll (first :: second :: rest) =
      operation.joinPairs (first :: second :: rest) >>= operation.joinAll := by
  rw [joinAll]
  split
  · next failure failed => rw [failed, Result.error_bind]
  · next joined isJoined => rw [isJoined, Result.ok_bind]

variable {operation : Operation} (arithmetic : operation ∈ arithmetic)

include arithmetic

/-- Two matched pairs are joined into matched trees, or both fail. -/
theorem join_both
    {left left' right right' : Expr}
    (leftMatched : Matched left left')
    (rightMatched : Matched right right') :
    Both Matched (operation.join left right) (operation.join left' right') := by
  have grouped := Matched.group arithmetic leftMatched rightMatched
  cases leftMatched with
  | const value =>
    cases rightMatched with
    | const value' =>
      have evaluates (e : Expr)
          (evaluated : operation.evaluate (.const value) (.const value') =
            .ok e) : Matched e e :=
        .of_isConst (isConst_of_evaluate evaluated)
      exact Both.refl evaluates
    | _ => exact grouped
  | _ => exact grouped

/-- One round over matched lists gives matched lists. -/
theorem joinPairs_both
    {terms terms' : List Expr}
    (matched : List.Forall₂ Matched terms terms') :
    Both (List.Forall₂ Matched) (operation.joinPairs terms)
      (operation.joinPairs terms') := by
  fun_induction joinPairs operation terms generalizing terms' with
  | case1 first second rest inductive_step =>
    obtain _ | ⟨firstMatched, _ | ⟨secondMatched, restMatched⟩⟩ := matched
    rw [joinPairs]
    exact (join_both arithmetic firstMatched secondMatched).bind
      fun _ _ joined =>
      (inductive_step restMatched).bind fun _ _ others => .cons joined others
  | case2 terms notTwo =>
    obtain _ | ⟨firstMatched, _ | ⟨secondMatched, restMatched⟩⟩ := matched
    · exact .nil
    · exact .cons firstMatched .nil
    · exact absurd rfl (notTwo _ _ _)

/-- Matched lists are joined into matched trees. -/
theorem joinAll_both
    {terms terms' : List Expr}
    (matched : List.Forall₂ Matched terms terms') :
    Both Matched (operation.joinAll terms) (operation.joinAll terms') := by
  fun_induction joinAll operation terms generalizing terms' with
  | case1 =>
    cases matched
    rw [joinAll]
    exact .same _
  | case2 term =>
    obtain _ | ⟨termMatched, _ | _⟩ := matched
    rw [joinAll]
    exact termMatched
  | case3 first second rest failure failed =>
    have round := joinPairs_both arithmetic matched
    rw [failed] at round
    obtain ⟨failure', failed', alike⟩ := round.exists_error
    obtain _ | ⟨_, _ | _⟩ := matched
    rw [joinAll_cons_cons, failed']
    exact alike
  | case4 first second rest joined isJoined inductive_step =>
    have round := joinPairs_both arithmetic matched
    rw [isJoined] at round
    obtain ⟨joined', isJoined', joinedMatched⟩ := round.exists_ok
    obtain _ | ⟨_, _ | _⟩ := matched
    rw [joinAll_cons_cons, isJoined']
    exact inductive_step joinedMatched

end Operation

/-- Matched terms are as long, so they are inserted at the same place. -/
theorem insertByLength_matched
    {term term' : Expr}
    {terms terms' : List Expr}
    (termMatched : Matched term term')
    (matched : List.Forall₂ Matched terms terms') :
    List.Forall₂ Matched (insertByLength term terms)
      (insertByLength term' terms') := by
  induction matched with
  | nil => exact .cons termMatched .nil
  | cons otherMatched restMatched inductive_step =>
    simp only [insertByLength, termMatched.alike.sameTokens,
      otherMatched.alike.sameTokens]
    split
    · exact .cons termMatched (.cons otherMatched restMatched)
    · exact .cons otherMatched inductive_step

/-- Matched lists are ordered alike. -/
theorem orderByLength_both
    {terms terms' : List Expr}
    (matched : List.Forall₂ Matched terms terms') :
    Both (List.Forall₂ Matched) (orderByLength terms)
      (orderByLength terms') := by
  have noForeign : terms.findSome? Expr.foreign? = none ∧
      terms'.findSome? Expr.foreign? = none := by
    induction matched with
    | nil => exact ⟨rfl, rfl⟩
    | cons termMatched _ inductive_step =>
      simpa [termMatched.alike.noForeign, termMatched.alike.noForeign']
        using inductive_step
  have ordered : List.Forall₂ Matched (terms.foldr insertByLength [])
      (terms'.foldr insertByLength []) := by
    induction matched with
    | nil => exact .nil
    | cons termMatched _ inductive_step =>
      exact insertByLength_matched termMatched (inductive_step (by simp_all))
  rw [orderByLength, orderByLength, noForeign.1, noForeign.2]
  exact ordered

theorem isEmpty_eq
    {α α' : Type}
    {related : α -> α' -> Prop}
    {list : List α}
    {list' : List α'}
    (matched : List.Forall₂ related list list') :
    list.isEmpty = list'.isEmpty := by
  cases matched <;> rfl

/-! ## Multiples -/

/-- The same factor is taken out of matched lists. -/
theorem withoutFirst_both
    {base base' : Expr}
    (baseAlike : base.Alike base')
    {factors factors' : List Expr}
    (matched : List.Forall₂ Matched factors factors') :
    Both (Option.Rel (List.Forall₂ Matched)) (withoutFirst base factors)
      (withoutFirst base' factors') := by
  induction matched with
  | nil => exact .none
  | @cons factor factor' rest rest' factorMatched restMatched inductive_step =>
    rw [withoutFirst, withoutFirst, factorMatched.alike.sameEqual baseAlike]
    cases factor'.equal base' with
    | error failure => exact .same failure
    | ok isEqual =>
      cases isEqual with
      | true => exact .some restMatched
      | false =>
        simp only [Result.ok_bind, Bool.false_eq_true, if_false]
        refine Both.bind inductive_step fun found found' related => ?_
        cases related with
        | none => exact .none
        | some leftMatched => exact .some (.cons factorMatched leftMatched)

/-- Alike trees are split to alike bases and exponents, and a constant exponent
is one on both sides. -/
theorem splitPower_alike
    {e e' : Expr}
    (alike : e.Alike e') :
    let power := splitPower Registry.standard.exponential e
    let power' := splitPower Registry.standard.exponential e'
    power.1.Alike power'.1 ∧ power.2.Alike power'.2 ∧
      power.2.isConst = power'.2.isConst := by
  have isPower : Registry.standard.exponential = some .power := rfl
  have matched := alike.matched
  have one : Matched (.int 1) (.int 1) := .const _
  dsimp only
  rw [isPower]
  unfold splitPower
  generalize e.unwrap = root, e'.unwrap = root' at matched
  have whole := matched.alike
  cases matched with
  | @node operation left left' right right' arithmetic leftAlike rightAlike sameSees =>
    by_cases plays : operation.plays (some .power) = true
    · simp only [plays, if_true]
      obtain rfl :=
        Operation.eq_of_id_eq arithmetic (by simp [Operation.arithmetic])
        (show operation.id = Operation.power.id
          by simpa [Operation.plays] using plays)
      have seen : [right.isConst] = [right'.isConst] := sameSees
      exact ⟨leftAlike, rightAlike, List.singleton_injective seen⟩
    · simp only [plays]
      exact ⟨whole, one.alike, rfl⟩
  | _ => exact ⟨whole, one.alike, rfl⟩

/-- Only constants have a quotient, apart from a division by one. -/
theorem exponentRatio_eq
    {first second : Expr}
    (noForeign : first.foreign? = none)
    (notConst : first.isConst = false ∨ second.isConst = false) :
    exponentRatio first second = .ok
      (if first.isOne then some second else none) := by
  have asked : first.askOne = .ok first.isOne := by
    cases first with
    | foreign object => cases noForeign
    | _ => rfl
  unfold exponentRatio
  rw [asked, Result.ok_bind]
  cases first.isOne with
  | true => rfl
  | false =>
    rw [if_neg Bool.false_ne_true, if_neg Bool.false_ne_true]
    split
    · rcases notConst with notConst | notConst <;> cases notConst
    · rfl

/-- The trees that are alike to themselves form a class. -/
theorem ChainClass.alike_self : ChainClass fun e => e.Alike e where
  const := fun value => (Matched.const value).alike
  inner := fun _ alike => alike.inner_left.inner_right
  operands := by
    intro operation left right alike
    cases alike.matched with
    | node arithmetic leftAlike rightAlike sameSees =>
      exact ⟨leftAlike, rightAlike⟩
  group := fun _ primary _ _ leftAlike rightAlike =>
    .node (Operation.arithmetic_of_primary primary) leftAlike rightAlike rfl

/-- Alike exponents have alike ratios. -/
theorem exponentRatio_both
    {first first' second second' : Expr}
    (firstAlike : first.Alike first')
    (secondAlike : second.Alike second')
    (sameFirst : first.isConst = first'.isConst)
    (sameSecond : second.isConst = second'.isConst) :
    Both (Option.Rel Alike) (exponentRatio first second)
      (exponentRatio first' second') := by
  by_cases constants : first.isConst = true ∧ second.isConst = true
  · obtain ⟨isConst, isConst'⟩ := constants
    obtain rfl := firstAlike.eq_of_isConst isConst (sameFirst ▸ isConst)
    obtain rfl := secondAlike.eq_of_isConst isConst' (sameSecond ▸ isConst')
    refine Both.refl fun found isFound => ?_
    cases found with
    | none => exact .none
    | some ratio =>
      exact .some (ChainClass.alike_self.exponentRatio secondAlike isFound)
  · have notConst : first.isConst = false ∨ second.isConst = false := by
      simpa only [not_and_or, Bool.not_eq_true] using constants
    rw [exponentRatio_eq firstAlike.noForeign notConst,
      exponentRatio_eq firstAlike.noForeign'
        (sameFirst ▸ sameSecond ▸ notConst),
      firstAlike.isOne_eq sameFirst]
    split
    · exact .some secondAlike
    · exact .none

/-! ## Lockstep -/

section Work

variable {related : Cache -> Cache -> Prop} {settings : Settings}
  (standard : settings.registry = .standard) {recursion recursion' : Recursion}
  (recursive : ∀ e e', e.Alike e' ->
    Work.Lockstep related Matched (recursion e) (recursion' e'))

include standard recursive

/-- A multiple of a term is found in a tree and in one that is alike. -/
theorem multiple_lockstep
    {promoted : Operation}
    (isPromoted : promoted = .product ∨ promoted = .power)
    {base base' target target' : Expr}
    (baseAlike : base.Alike base')
    (targetAlike : target.Alike target') :
    Work.Lockstep related (Option.Rel Matched)
      (multiple settings recursion promoted base target)
      (multiple settings recursion' promoted base' target') := by
  unfold multiple
  rw [standard]
  rcases isPromoted with rfl | rfl
  · simp only [show Operation.product.plays Registry.standard.multiplicative =
      true from rfl,
      if_true]
    unfold productMultiple
    rw [chainTerms_product, chainTerms_product]
    refine .bind (.lift (StandardChain.product.openChain_both true targetAlike))
      fun factors factors' matched => ?_
    refine .bind (.lift (withoutFirst_both baseAlike matched))
      fun found found' left => ?_
    match found, found', left with
    | none, none, _ => exact .pure .none
    | some [], some [], _ => exact .pure (.some (.const _))
    | some (factor :: others), some (factor' :: others'), .some leftMatched =>
      refine .bind (.lift
        (Operation.joinAll_both (by simp [Operation.arithmetic]) leftMatched))
        fun _ _ cofactor => .pure (.some cofactor)
  · simp only [show Operation.power.plays Registry.standard.multiplicative =
      false from rfl,
      show Operation.power.plays Registry.standard.exponential = true from rfl,
      Bool.false_eq_true, if_false, if_true]
    unfold powerMultiple
    rw [standard]
    obtain ⟨baseSplit, baseExponent, sameBase⟩ := splitPower_alike baseAlike
    obtain ⟨targetSplit, targetExponent, sameTarget⟩ :=
      splitPower_alike targetAlike
    dsimp only
    rw [baseSplit.sameEqual targetSplit]
    refine .lift_bind fun isEqual _ => ?_
    split
    · refine .bind (.lift
        (exponentRatio_both baseExponent targetExponent sameBase sameTarget))
        fun found found' foundAlike => ?_
      cases foundAlike with
      | none => exact .pure .none
      | some ratioAlike =>
        exact .bind (recursive _ _ ratioAlike) fun _ _ simplified =>
          .pure (.some simplified)
    · exact .pure .none

section Collecting

variable {collection : Collection}
  (isPromoted : collection.promoted = .product ∨ collection.promoted = .power)
  (isSum : collection.additive = .sum)

include isPromoted isSum

/-- Alike terms are swept from alike lists. -/
theorem sweep_lockstep
    {term term' coefficient coefficient' : Expr}
    (termMatched : Matched term term')
    (coefficientMatched : Matched coefficient coefficient')
    {later later' : List Expr}
    (laterMatched : List.Forall₂ Matched later later') :
    Work.Lockstep related
      (fun swept swept' => Matched swept.1 swept'.1 ∧
        List.Forall₂ Matched swept.2.1 swept'.2.1)
      (sweep settings recursion collection term coefficient later)
      (sweep settings recursion' collection term' coefficient' later') := by
  induction laterMatched generalizing coefficient coefficient' with
  | nil => exact .pure ⟨coefficientMatched, .nil⟩
  | cons otherMatched restMatched inductive_step =>
    rw [sweep, sweep]
    refine .bind (multiple_lockstep standard recursive isPromoted
      termMatched.alike otherMatched.alike) fun found found' foundMatched => ?_
    cases foundMatched with
    | none =>
      refine .bind (inductive_step coefficientMatched) ?_
      rintro ⟨total, left, bound⟩ ⟨total', left', bound'⟩
        ⟨totalMatched, leftMatched⟩
      exact .pure ⟨totalMatched, .cons otherMatched leftMatched⟩
    | some factorMatched =>
      rw [isSum]
      refine .bind (.lift
        (Operation.join_both (by simp [Operation.arithmetic]) coefficientMatched
        factorMatched)) fun increased increased' increasedMatched => ?_
      refine .bind (inductive_step increasedMatched) ?_
      rintro ⟨total, left, bound⟩ ⟨total', left', bound'⟩
        ⟨totalMatched, leftMatched⟩
      exact .pure ⟨totalMatched, leftMatched⟩

omit standard recursive isSum in
/-- Matched terms times matched coefficients are matched. -/
theorem scaled_matched
    {term term' coefficient coefficient' : Expr}
    (termMatched : Matched term term')
    (coefficientMatched : Matched coefficient coefficient') :
    List.Forall₂ Matched (scaled collection.promoted term coefficient)
      (scaled collection.promoted term' coefficient') := by
  have arithmetic : collection.promoted ∈ Operation.arithmetic := by
    rcases isPromoted with isPromoted | isPromoted <;>
      simp [isPromoted, Operation.arithmetic]
  unfold scaled
  rw [coefficientMatched.isZero_eq, coefficientMatched.isOne_eq]
  split
  · exact .nil
  · split
    · exact .cons termMatched .nil
    · exact .cons (.group arithmetic termMatched coefficientMatched) .nil

/-- Ordered matched terms are collected in lockstep. -/
theorem collectOrdered_lockstep
    {terms terms' : List Expr}
    (matched : List.Forall₂ Matched terms terms') :
    Work.Lockstep related (List.Forall₂ Matched)
      (collectOrdered settings recursion collection terms)
      (collectOrdered settings recursion' collection terms') := by
  induction length :
    terms.length using Nat.strongRecOn generalizing terms terms' with
  | ind count inductive_step =>
    cases matched with
    | nil =>
      rw [collectOrdered, collectOrdered]
      exact .pure .nil
    | cons termMatched laterMatched =>
      rw [collectOrdered, collectOrdered]
      refine .bind (sweep_lockstep standard recursive isPromoted isSum
        termMatched (.const _) laterMatched) ?_
      rintro ⟨total, left, bound⟩ ⟨total', left', bound'⟩
        ⟨totalMatched, leftMatched⟩
      have shorter : left.length < count := by
        simp only [← length, List.length_cons]
        omega
      exact .bind (inductive_step left.length shorter leftMatched rfl)
        fun _ _ others =>
        .pure (List.rel_append
          (scaled_matched isPromoted termMatched totalMatched) others)

end Collecting

/-! ## Reducing -/

variable {focus promoted : Operation} {inverse : Inverse} {unit : Int}
  (chain : StandardChain focus promoted inverse unit)

include chain

/-- Matched terms of a chain are collected in lockstep. -/
theorem collect_lockstep
    {terms terms' : List Expr}
    (matched : List.Forall₂ Matched terms terms') :
    Work.Lockstep related (List.Forall₂ Matched)
      (collect settings recursion focus terms)
      (collect settings recursion' focus terms') := by
  have promotes : promote .standard focus = pure promoted := by
    cases chain <;> rfl
  have identifies : identity .standard focus = pure (some (.int unit)) := by
    cases chain <;> rfl
  have different : promoted.id ≠ focus.id := by cases chain <;> decide
  have isPromoted : promoted = .product ∨ promoted = .power := by
    cases chain <;> simp
  have adds : Registry.standard.additive = some .sum := rfl
  unfold collect
  rw [standard, promotes, identifies, adds]
  simp only [isEmpty_eq matched, if_neg different, pure_bind]
  split
  · exact .bind (.throw (.same _) fun _ _ => False) fun _ _ impossible =>
      impossible.elim
  · refine .bind (.lift (orderByLength_both matched))
      fun ordered ordered' orderedMatched => ?_
    refine .bind (collectOrdered_lockstep standard recursive isPromoted rfl
      orderedMatched) fun collected collected' collectedMatched => ?_
    rw [isEmpty_eq collectedMatched]
    split
    · simp only [map_pure, pure_bind]
      exact .bind (.note _ _) fun _ _ _ => .pure (.cons (.const _) .nil)
    · exact .bind (.note _ _) fun _ _ _ => .pure collectedMatched

omit standard chain in
/-- Constants are told from other terms at the same places. -/
theorem splitConstants_lockstep
    {terms terms' : List Expr}
    (matched : List.Forall₂ Matched terms terms') :
    Work.Lockstep related
      (fun split split' =>
        List.Forall₂ Matched split.1 split'.1 ∧
          List.Forall₂ Matched split.2 split'.2)
      (Pass.splitConstants recursion terms)
        (Pass.splitConstants recursion' terms') := by
  induction matched with
  | nil => exact .pure ⟨.nil, .nil⟩
  | cons termMatched restMatched inductive_step =>
    rw [Pass.splitConstants, Pass.splitConstants,
      termMatched.alike.hasOnlyConstants]
    split
    · refine .bind (recursive _ _ termMatched.alike)
        fun value value' valueMatched => ?_
      refine .bind inductive_step ?_
      rintro ⟨constants, others⟩ ⟨constants', others'⟩
        ⟨constantsMatched, othersMatched⟩
      dsimp only
      rw [valueMatched.isConst_eq]
      split
      · exact .pure ⟨.cons valueMatched constantsMatched, othersMatched⟩
      · exact .pure ⟨constantsMatched, .cons valueMatched othersMatched⟩
    · refine .bind inductive_step ?_
      rintro ⟨constants, others⟩ ⟨constants', others'⟩
        ⟨constantsMatched, othersMatched⟩
      exact .pure ⟨constantsMatched, .cons termMatched othersMatched⟩

/-- What is no constant is simplified in lockstep. -/
theorem residue_lockstep
    {terms terms' : List Expr}
    (matched : List.Forall₂ Matched terms terms') :
    Work.Lockstep related (Option.Rel Matched)
      (Pass.residue settings recursion focus terms)
      (Pass.residue settings recursion' focus terms') := by
  match terms, terms', matched with
  | [], [], _ => exact .pure .none
  | [term], [term'], .cons termMatched _ =>
    exact .bind (recursive _ _ termMatched.alike) fun _ _ simplified =>
      .pure (.some simplified)
  | first :: second :: rest, first' :: second' :: rest', matched =>
    refine .bind (collect_lockstep standard recursive chain matched)
      fun collected collected' collectedMatched => ?_
    rw [isEmpty_eq collectedMatched]
    split
    · exact .pure .none
    · have arithmetic := Operation.arithmetic_of_primary chain.focus_primary
      exact .bind (.lift (Operation.joinAll_both arithmetic collectedMatched))
        fun _ _ joined =>
        .pure (.some joined)

omit standard recursive chain in
/-- A constant is drawn into the rest in both lists or in neither. -/
theorem absorbConstant_matched
    {constants constants' : List Expr}
    {rest rest' : Option Expr}
    (constantsMatched : List.Forall₂ Matched constants constants')
    (restMatched : Option.Rel Matched rest rest') :
    List.Forall₂ Matched (Pass.absorbConstant constants rest).1
        (Pass.absorbConstant constants' rest').1 ∧
      Option.Rel Matched (Pass.absorbConstant constants rest).2
        (Pass.absorbConstant constants' rest').2 := by
  cases restMatched with
  | none => exact ⟨constantsMatched, .none⟩
  | some matched =>
    cases matched with
    | const value =>
      exact ⟨List.rel_append constantsMatched (.cons (.const value) .nil),
        .none⟩
    | blank => exact ⟨constantsMatched, .some .blank⟩
    | var name => exact ⟨constantsMatched, .some (.var name)⟩
    | node arithmetic leftAlike rightAlike sameSees =>
      exact ⟨constantsMatched,
        .some (.node arithmetic leftAlike rightAlike sameSees)⟩

/-- The chains of alike trees are reduced to alike trees. -/
theorem reduceChain_lockstep
    {source source' : Expr}
    (alike : source.Alike source') :
    Work.Lockstep related Matched
      (Pass.reduceChain settings recursion focus source)
      (Pass.reduceChain settings recursion' focus source') := by
  have arithmetic := Operation.arithmetic_of_primary chain.focus_primary
  unfold Pass.reduceChain
  rw [standard, chain.chainTerms_eq, chain.chainTerms_eq]
  refine .bind (.lift (chain.openChain_both true alike))
    fun terms terms' matched => ?_
  refine .bind (.note _ _) fun _ _ _ => ?_
  refine .bind (splitConstants_lockstep recursive matched) ?_
  rintro ⟨evaluated, others⟩ ⟨evaluated', others'⟩
    ⟨evaluatedMatched, othersMatched⟩
  refine .bind (residue_lockstep standard recursive chain othersMatched)
    fun rest rest' restMatched => ?_
  obtain ⟨constantsMatched, restMatched⟩ :=
    absorbConstant_matched evaluatedMatched restMatched
  dsimp only at constantsMatched restMatched ⊢
  generalize Pass.absorbConstant evaluated rest = absorbed,
    Pass.absorbConstant evaluated' rest' =
      absorbed' at constantsMatched restMatched
  obtain ⟨constants, rest⟩ := absorbed
  obtain ⟨constants', rest'⟩ := absorbed'
  dsimp only at constantsMatched restMatched ⊢
  rw [isEmpty_eq constantsMatched]
  split
  · cases restMatched with
    | none => exact .pure .blank
    | some matched => exact .pure matched
  · refine .bind (.lift (Operation.joinAll_both arithmetic constantsMatched))
      fun constant constant' constantMatched => ?_
    cases restMatched with
    | none => exact .pure constantMatched
    | some matched => exact .pure (.group arithmetic constantMatched matched)

end Work
end Symbolic
