import Symbolic.Proofs.ChainReduction
import Symbolic.Proofs.CollectEnds
import Symbolic.Proofs.Lockstep
import Symbolic.Proofs.Registration

/-!
# Chains of plain trees

The functions that a simplification is made of have many ways to fail: nothing
to join, a chain of an operation that is not commutative, a question that a
foreign object does not answer, an operation that a wrapper lacks.  None of them
is met by chains of plain trees, that is, of trees without wrappers and foreign
objects: opening, matching, combining and collecting such chains gives plain
trees again, or a bound is exceeded, or two numbers have no value.

What is used of the registry is that the operation for repeated terms, where it
plays the part of multiplication, is commutative.  This holds because
registrations accept only registered operations and keep ids unique.
-/

namespace Symbolic

/-! ## Plain trees and ordinary failures -/

namespace Expr

/-- Neither wrappers nor foreign objects occur in the tree. -/
def IsPlain : Expr -> Prop
  | node _ left right => left.IsPlain ∧ right.IsPlain
  | wrap _ => False
  | foreign _ => False
  | _ => True

namespace IsPlain

theorem of_isConst {e : Expr} (isConst : e.isConst = true) : e.IsPlain := by
  cases e with
  | const value => trivial
  | _ => cases isConst

/-- A plain tree contains no foreign object. -/
theorem foreign?_eq_none {e : Expr} (plain : e.IsPlain) :
    e.foreign? = none := by
  induction e with
  | node operation left right leftStep rightStep =>
    rw [foreign?, leftStep plain.1, rightStep plain.2]
    rfl
  | wrap inner => exact plain.elim
  | foreign object => exact plain.elim
  | _ => rfl

theorem unwrap_eq_self {e : Expr} (plain : e.IsPlain) : e.unwrap = e := by
  cases e with
  | wrap inner => exact plain.elim
  | _ => rfl

theorem hasWrapper_eq_false {e : Expr} (plain : e.IsPlain) :
    e.hasWrapper = false := by
  induction e with
  | node operation left right leftStep rightStep =>
    rw [hasWrapper, leftStep plain.1, rightStep plain.2]
    rfl
  | wrap inner => exact plain.elim
  | _ => rfl

/-- A plain tree of more than one operand is a node. -/
theorem exists_node
    {e : Expr}
    (plain : e.IsPlain)
    (isCompound : e.isCompound = true) :
    ∃ operation left right, e = .node operation left right := by
  cases e with
  | node operation left right => exact ⟨operation, left, right, rfl⟩
  | wrap inner => exact plain.elim
  | _ => cases isCompound

/-- A plain tree can be asked whether it is zero. -/
theorem askZero {e : Expr} (plain : e.IsPlain) : e.askZero = .ok e.isZero := by
  cases e with
  | foreign object => exact plain.elim
  | _ => rfl

theorem askOne {e : Expr} (plain : e.IsPlain) : e.askOne = .ok e.isOne := by
  cases e with
  | foreign object => exact plain.elim
  | _ => rfl

/-- Only its numbers can keep a plain tree from being written. -/
theorem unwritable?_cases
    {e : Expr}
    (plain : e.IsPlain)
    (query : Option Query) :
    e.unwritable? query = none ∨ e.unwritable? query = some .tooManyDigits := by
  induction e with
  | const value =>
    rw [unwritable?]
    split
    · exact .inl rfl
    · exact .inr rfl
  | node operation left right leftStep rightStep =>
    rw [unwritable?]
    rcases leftStep plain.1 with leftWritten | leftLong
    · rw [leftWritten, Option.none_or]
      exact rightStep plain.2
    · rw [leftLong]
      exact .inr rfl
  | wrap inner => exact plain.elim
  | foreign object => exact plain.elim
  | _ => exact .inl rfl

end IsPlain
end Expr

/-- The failures that speak about the tree that is simplified: a bound was
exceeded at one of its parts, or the value of two numbers does not exist. -/
inductive Error.IsOrdinary : Error -> Prop where
  | divergence (bound : Bound) (limit : Int) {e : Expr} :
    e.IsPlain -> IsOrdinary (.divergence bound limit (some e))
  | evaluation (symbol : String) (a b : Number) (fault : Number.Fault) :
    IsOrdinary (.evaluation symbol [.ofNumber a, .ofNumber b] (.fault fault))

/-- A number is written into a message or has too many digits for it. -/
theorem Argument.write_ofNumber_cases (value : Number) :
    (∃ text, (Argument.ofNumber value).write = .ok text) ∨
      (Argument.ofNumber value).write = .error .tooManyDigits := by
  cases value with
  | real x => exact .inl ⟨_, rfl⟩
  | int n =>
    simp only [ofNumber, write, Expr.writeText, Expr.unwritable?]
    split
    · exact .inl ⟨_, rfl⟩
    · exact .inr rfl

/-- An ordinary failure is reported as it is, unless it quotes an integer that
has too many digits to be written. -/
theorem Error.IsOrdinary.settle
    {failure : Error}
    (ordinary : failure.IsOrdinary) :
    failure.settle = failure ∨ failure.settle = .tooManyDigits := by
  cases ordinary with
  | divergence bound limit plain =>
    simp only [Error.settle, describe, Expr.writeText_eq plain.foreign?_eq_none]
    rcases plain.unwritable?_cases (some .text) with written | long
    · rw [written]
      exact .inl rfl
    · rw [long]
      exact .inr rfl
  | evaluation symbol a b fault =>
    simp only [Error.settle, describe, List.mapM_cons, List.mapM_nil]
    rcases Argument.write_ofNumber_cases a with ⟨left, leftWritten⟩ | long
    · rcases Argument.write_ofNumber_cases b with ⟨right, rightWritten⟩ | long
      · rw [leftWritten, rightWritten]
        exact .inl rfl
      · rw [leftWritten, long]
        exact .inr rfl
    · rw [long]
      exact .inr rfl

/-! ## Registries -/

/-- What a simplification relies on: the operation for repeated terms is
commutative where it plays the part of multiplication, and identity elements are
plain. -/
structure Registry.Supports (registry : Registry) : Prop where
  commutes : ∀ operation promoted,
    registry.promotion? operation = some promoted ->
    promoted.plays registry.multiplicative = true ->
      promoted.isCommutative = true
  identities : ∀ operation value, registry.identity? operation = some value ->
    value.IsPlain

/-! ## Terms -/

/-- A result satisfies a postcondition, or the failure is an ordinary one. -/
abbrev Result.EndsOrdinarily (result : Result α) (post : α -> Prop) : Prop :=
  result.Ends Error.IsOrdinary post

/-- Evaluating at constants gives a constant or an ordinary failure. -/
theorem Operation.evaluate_endsOrdinarily
    (operation : Operation)
    {a b : Expr}
    (leftConst : a.isConst = true)
    (rightConst : b.isConst = true) :
    (operation.evaluate a b).EndsOrdinarily Expr.IsPlain := by
  cases a with
  | const x =>
    cases b with
    | const y =>
      rw [evaluate]
      cases operation.kernel.exact x y with
      | ok value => trivial
      | error fault => exact .evaluation operation.symbol x y fault
    | _ => cases rightConst
  | _ => cases leftConst

/-- Transforms lead to plain trees.  Only the reciprocal of a number can be
missing. -/
theorem Transform.apply_endsOrdinarily
    (transform : Transform)
    {e : Expr}
    (plain : e.IsPlain) :
    (transform.apply e).EndsOrdinarily Expr.IsPlain := by
  cases applied : transform.apply e with
  | ok turned =>
    rcases Transform.apply_cases applied with
      ⟨-, isConst⟩ | rfl | ⟨-, -, rfl⟩ | ⟨-, -, rfl⟩
    · exact .of_isConst isConst
    · exact plain
    · exact ⟨trivial, plain⟩
    · exact ⟨plain, trivial⟩
  | error failure =>
    cases transform with
    | negate => cases applied
    | reciprocal =>
      cases e with
      | const value =>
        exact (Operation.quotient.evaluate_endsOrdinarily (a := .int 1) (b :=
          .const value)
          rfl rfl).failed applied
      | node operation left right =>
        simp only [apply, invertFactor] at applied
        split at applied <;> cases applied
      | _ => cases applied

/-- The terms of a plain chain are plain, by induction on the tree. -/
theorem openChain_endsOrdinarily
    (focus : Operation)
    (inverse : Option Inverse)
    (upright : Bool)
    {e : Expr}
    (plain : e.IsPlain) :
    (openChain focus inverse upright e).EndsOrdinarily fun terms =>
      ∀ term ∈ terms, term.IsPlain := by
  have single {e : Expr} (plain : e.IsPlain) :
      Result.EndsOrdinarily (.ok [e]) fun terms => ∀ term ∈ terms,
        term.IsPlain := by
    intro term member
    obtain rfl := List.mem_singleton.1 member
    exact plain
  fun_induction openChain focus inverse upright e with
  | case1 upright => simp [Result.Ends]
  | case2 upright value => exact single (e := .const value) trivial
  | case3 upright name => exact single (e := .var name) trivial
  | case4 upright inner inductive_step => exact plain.elim
  | case5 upright object => exact plain.elim
  | case6 upright operation left right same leftStep rightStep =>
    exact (leftStep plain.1).append (rightStep plain.2)
  | case7 upright operation left right different noInverse => exact single plain
  | case8 upright operation left right different i present same failure failed =>
    have operandPlain : (if upright then right else left).IsPlain := by
      cases upright
      · exact plain.1
      · exact plain.2
    exact (i.transform.apply_endsOrdinarily operandPlain).failed failed
  | case9 upright operation left right different i present same turned applied keptStep
      turnedStep =>
    have operandsPlain : (if upright then left else right).IsPlain ∧
        (if upright then right else left).IsPlain := by
      cases upright
      · exact ⟨plain.2, plain.1⟩
      · exact plain
    have turnedPlain :=
      (i.transform.apply_endsOrdinarily operandsPlain.2).returned applied
    subst present
    exact (keptStep operandsPlain.1).append (turnedStep turnedPlain)
  | case10 upright operation left right different i present other =>
    exact single plain

namespace Operation

/-- Plain trees are joined into a plain tree. -/
theorem join_endsOrdinarily
    (operation : Operation)
    {a b : Expr}
    (leftPlain : a.IsPlain)
    (rightPlain : b.IsPlain) :
    (operation.join a b).EndsOrdinarily Expr.IsPlain := by
  unfold join
  split
  · exact leftPlain.elim
  · exact rightPlain.elim
  · exact operation.evaluate_endsOrdinarily rfl rfl
  · exact ⟨leftPlain, rightPlain⟩

/-- Joining terms never finds that there are none, if there are some. -/
theorem joinAll_endsOrdinarily
    (operation : Operation)
    {terms : List Expr}
    (present : terms ≠ [])
    (allPlain : ∀ term ∈ terms, term.IsPlain) :
    (operation.joinAll terms).EndsOrdinarily Expr.IsPlain :=
  joinAll_ends (fun _ _ => operation.join_endsOrdinarily) present allPlain

end Operation

/-! ## Multiples -/

/-- Base and exponent of a plain tree are plain. -/
theorem splitPower_isPlain
    (exponential : Option Operation)
    {e : Expr}
    (plain : e.IsPlain) :
    (splitPower exponential e).1.IsPlain ∧
      (splitPower exponential e).2.IsPlain := by
  unfold splitPower
  rw [plain.unwrap_eq_self]
  split
  · split
    · exact plain
    · exact ⟨plain, trivial⟩
  · exact ⟨plain, trivial⟩

/-- So is the ratio of plain exponents. -/
theorem exponentRatio_endsOrdinarily
    {first second : Expr}
    (firstPlain : first.IsPlain)
    (secondPlain : second.IsPlain) :
    (exponentRatio first second).EndsOrdinarily fun found =>
      ∀ ratio, found = some ratio -> ratio.IsPlain := by
  unfold exponentRatio
  rw [firstPlain.askOne, Result.ok_bind]
  split
  · rintro ratio ⟨⟩
    exact secondPlain
  · split
    · intro ratio isRatio
      split at isRatio
      · cases isRatio
        trivial
      · cases isRatio
    · rintro ratio ⟨⟩

/-- The invariant of the memory: only plain trees are remembered. -/
def Remembered.IsPlain (entry : Remembered) : Prop :=
  entry.source.IsPlain ∧ entry.result.IsPlain

/-- A computation with a memory of plain trees satisfies a postcondition, or its
failure is an ordinary one; only plain trees are remembered in the end. -/
abbrev Work.EndsOrdinarily (work : Work α) (post : α -> Prop) : Prop :=
  work.Ends (Cache.Holds fun _ entry => entry.IsPlain) Error.IsOrdinary post

theorem chainTerms_endsOrdinarily
    (registry : Registry)
    {focus : Operation}
    (commutative : focus.isCommutative = true)
    {e : Expr}
    (plain : e.IsPlain) :
    (chainTerms registry focus e).EndsOrdinarily fun terms => ∀ term ∈ terms,
      term.IsPlain := by
  have opens :=
    openChain_endsOrdinarily focus (registry.inverse? focus) true plain
  unfold chainTerms
  rw [if_pos commutative]
  dsimp only
  split
  · exact .bind (.note _) fun _ _ => .lift opens
  · exact .lift opens

section Recursion

variable {settings : Settings} (supported : settings.registry.Supports)
  {recursion : Recursion}
  (recursive : ∀ e, e.IsPlain -> (recursion e).EndsOrdinarily Expr.IsPlain)

theorem productMultiple_endsOrdinarily
    (registry : Registry)
    {operation : Operation}
    (commutative : operation.isCommutative = true)
    {base target : Expr}
    (basePlain : base.IsPlain)
    (targetPlain : target.IsPlain) :
    (productMultiple registry operation base target).EndsOrdinarily fun found =>
      ∀ factor, found = some factor -> factor.IsPlain :=
  productMultiple_ends (fun _ plain => plain.foreign?_eq_none) basePlain
    (chainTerms_endsOrdinarily registry commutative targetPlain)
    (fun _ _ => operation.join_endsOrdinarily) trivial

include recursive

theorem powerMultiple_endsOrdinarily
    {base target : Expr}
    (basePlain : base.IsPlain)
    (targetPlain : target.IsPlain) :
    (powerMultiple settings recursion base target).EndsOrdinarily fun found =>
      ∀ factor, found = some factor -> factor.IsPlain := by
  unfold powerMultiple
  have baseSplit := splitPower_isPlain settings.registry.exponential basePlain
  have targetSplit :=
    splitPower_isPlain settings.registry.exponential targetPlain
  have compares : ((splitPower settings.registry.exponential base).1.equal
      (splitPower settings.registry.exponential target).1).EndsOrdinarily
        fun _ => True := by
    obtain ⟨isEqual, compared⟩ :=
      Expr.exists_equal_eq_ok baseSplit.1.foreign?_eq_none
        targetSplit.1.foreign?_eq_none
    exact .of_eq_ok compared trivial
  refine .bind (.lift compares) fun isEqual _ => ?_
  split
  · refine .bind (.lift
      (exponentRatio_endsOrdinarily baseSplit.2 targetSplit.2))
      fun found foundPlain => ?_
    cases found with
    | none => exact .pure (by simp)
    | some ratio =>
      refine .bind (recursive ratio (foundPlain ratio rfl))
        fun simplified simplifiedPlain => ?_
      refine .pure ?_
      rintro factor ⟨⟩
      exact simplifiedPlain
  · exact .pure (by simp)

/-- The factor between two plain trees is plain, if there is one. -/
theorem multiple_endsOrdinarily
    {operation : Operation}
    (commutes : operation.plays settings.registry.multiplicative = true ->
      operation.isCommutative = true)
    {base target : Expr}
    (basePlain : base.IsPlain)
    (targetPlain : target.IsPlain) :
    (multiple settings recursion operation base target).EndsOrdinarily
      fun found =>
      ∀ factor, found = some factor -> factor.IsPlain := by
  unfold multiple
  split
  · next plays =>
    exact productMultiple_endsOrdinarily settings.registry (commutes plays)
      basePlain targetPlain
  · split
    · exact powerMultiple_endsOrdinarily recursive basePlain targetPlain
    · exact .bind (.note _) fun _ _ => .pure (by simp)

/-! ## Collecting -/

/-- Collecting plain terms gives plain coefficients. -/
theorem collects_isPlain
    {promoted : Operation}
    (additive : Operation)
    (commutes : promoted.plays settings.registry.multiplicative = true ->
      promoted.isCommutative = true) :
    Collects (Cache.Holds fun _ entry => entry.IsPlain) Error.IsOrdinary
      settings recursion ⟨promoted, additive⟩ Expr.IsPlain Expr.IsPlain where
  one := trivial
  finds := fun _ _ => multiple_endsOrdinarily recursive commutes
  adds := fun _ _ => additive.join_endsOrdinarily
  scales := fun _ _ termPlain coefficientPlain =>
    forall_scaled termPlain ⟨termPlain, coefficientPlain⟩

include supported

/-- Collecting the terms of a chain that has some. -/
theorem collect_endsOrdinarily
    (focus : Operation)
    {terms : List Expr}
    (present : terms ≠ [])
    (allPlain : ∀ term ∈ terms, term.IsPlain) :
    (collect settings recursion focus terms).EndsOrdinarily fun collected =>
      ∀ term ∈ collected, term.IsPlain :=
  Collects.collect_ends
    (fun promoted additive isPromotion _ _ =>
      collects_isPlain recursive additive
        (supported.commutes focus promoted isPromotion))
    (fun _ plain => plain.foreign?_eq_none) (supported.identities focus) present
      allPlain

end Recursion
end Symbolic
