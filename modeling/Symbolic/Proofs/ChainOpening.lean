import Mathlib.Algebra.BigOperators.Group.List.Basic
import Symbolic.Chain.Terms
import Symbolic.Proofs.Outcome

/-!
# Opening chains

The terms of a chain combine to the value of its tree wherever nodes of the
focus are read as products, nodes of its inverse as quotients, and transformed
operands as inverses; the chain of a sum is the case in which the products are
sums.  One flag says which way up a node is seen.  This is enough as long as no
inverse node that is the right operand of an inverse node reaches a further one,
which is `Expr.turnsOnceUnder`: an operand below the second turn would be seen
upright although its transform was left out.
-/

namespace Symbolic

/-! ## One node -/

section Opening

variable {focus operation : Operation} {inverse : Option Inverse}
  {upright : Bool} {left right : Expr}

theorem openChain_blank : openChain focus inverse upright .blank = .ok [] := by
  rw [openChain.eq_def]

theorem openChain_foreign (object : Foreign) :
    openChain focus inverse upright (.foreign object) =
      .error (.unknownOperand .unfolding object) := by
  rw [openChain.eq_def]

theorem openChain_const (value : Number) :
    openChain focus inverse upright (.const value) = .ok [.const value] := by
  rw [openChain.eq_def]

theorem openChain_var (name : String) :
    openChain focus inverse upright (.var name) = .ok [.var name] := by
  rw [openChain.eq_def]

theorem openChain_wrap (inner : Expr) :
    openChain focus inverse upright (.wrap inner) =
      openChain focus inverse upright inner := by
  rw [openChain.eq_def]

/-- Under the focus both operands are opened, the left one first. -/
theorem openChain_focus (same : operation.id = focus.id) :
    openChain focus inverse upright (.node operation left right) = (do
      let first ← openChain focus inverse upright left
      let second ← openChain focus inverse upright right
      return first ++ second) := by
  rw [openChain.eq_def]
  simp only [same, if_true]

/-- Under the inverse one operand is opened as it is and the other one
transformed and turned over. -/
theorem openChain_inverse
    {i : Inverse}
    {turned : Expr}
    (different : operation.id ≠ focus.id)
    (same : operation.id = i.operation.id)
    (applied : i.transform.apply (if upright then right else left) =
      .ok turned) :
    openChain focus (some i) upright (.node operation left right) = (do
      let first ← openChain focus (some i) upright
        (if upright then left else right)
      let second ← openChain focus (some i) (!upright) turned
      return first ++ second) := by
  rw [openChain.eq_def]
  simp only [if_neg different, if_pos same]
  split
  · next failure failed =>
    rw [applied] at failed
    cases failed
  · next turned' applied' =>
    rw [applied] at applied'
    cases applied'
    rfl

theorem openChain_inverse_failed
    {i : Inverse}
    {failure : Error}
    (different : operation.id ≠ focus.id)
    (same : operation.id = i.operation.id)
    (failed : i.transform.apply (if upright then right else left) =
      .error failure) :
    openChain focus (some i) upright (.node operation left right) =
      .error failure := by
  rw [openChain.eq_def]
  simp only [if_neg different, if_pos same]
  split
  · next failure' failed' =>
    rw [failed] at failed'
    cases failed'
    rfl
  · next turned applied =>
    rw [failed] at applied
    cases applied

/-- Under any other operation the grouping is a term. -/
theorem openChain_other
    (different : operation.id ≠ focus.id)
    (noInverse : ∀ i, inverse = some i -> operation.id ≠ i.operation.id) :
    openChain focus inverse upright (.node operation left right) =
      .ok [.node operation left right] := by
  rw [openChain.eq_def]
  cases inverse with
  | none => simp only [if_neg different]
  | some i => simp only [if_neg different, if_neg (noInverse i rfl)]

end Opening

/-- The tree is no node of a chain. -/
def Expr.IsTerm (focus : Operation) (inverse : Option Inverse) (e : Expr) :
    Prop :=
  ∀ operation left right, e = .node operation left right ->
    operation.id ≠ focus.id ∧ ∀ i, inverse = some i ->
      operation.id ≠ i.operation.id

/-- The terms of a chain are no nodes of it.  A property that operands inherit
from the nodes of the chain, and that the transformed operands of inverse nodes
have too, holds for all terms. -/
theorem forall_of_openChain
    (good : Expr -> Prop)
    {focus : Operation}
    {inverse : Option Inverse}
    (wrapped : ∀ inner, good (.wrap inner) -> good inner)
    (operands : ∀ operation left right, good (.node operation left right) ->
      operation.id = focus.id ∨
        (∃ i, inverse = some i ∧ operation.id = i.operation.id) ->
        good left ∧ good right)
    (transformed : ∀ i operation left right (upright : Bool) turned,
      inverse = some i ->
      operation.id = i.operation.id -> good (.node operation left right) ->
      i.transform.apply (if upright then right else left) = .ok turned ->
        good turned)
    {upright : Bool}
    {e : Expr}
    (isGood : good e) :
    ∀ terms, openChain focus inverse upright e = .ok terms ->
      ∀ term ∈ terms, good term ∧ term.IsTerm focus inverse := by
  have single {e : Expr} (eGood : good e) (isTerm : e.IsTerm focus inverse) :
      ∀ terms, (.ok [e] : Result (List Expr)) = .ok terms ->
        ∀ term ∈ terms, good term ∧ term.IsTerm focus inverse := by
    rintro terms ⟨⟩ term member
    obtain rfl := List.mem_singleton.1 member
    exact ⟨eGood, isTerm⟩
  fun_induction openChain focus inverse upright e with
  | case1 upright => simp
  | case2 upright value => exact single isGood (by rintro _ _ _ ⟨⟩)
  | case3 upright name => exact single isGood (by rintro _ _ _ ⟨⟩)
  | case4 upright inner inductive_step =>
    exact inductive_step (wrapped inner isGood)
  | case5 upright object => simp
  | case6 upright operation left right same leftStep rightStep =>
    obtain ⟨leftGood, rightGood⟩ :=
      operands operation left right isGood (.inl same)
    exact Result.forall_mem_append (leftStep leftGood) (rightStep rightGood)
  | case7 upright operation left right different noInverse =>
    refine single isGood ?_
    rintro _ _ _ ⟨⟩
    exact ⟨different, by simp [noInverse]⟩
  | case8 upright operation left right different i present same failure failed => simp
  | case9 upright operation left right different i present same turned applied keptStep
      turnedStep =>
    obtain ⟨leftGood, rightGood⟩ :=
      operands operation left right isGood (.inr ⟨i, present, same⟩)
    subst present
    have keptGood : good (if upright then left else right) := by
      cases upright <;> assumption
    have turnedGood :=
      transformed i operation left right upright turned rfl same isGood applied
    exact Result.forall_mem_append (keptStep keptGood) (turnedStep turnedGood)
  | case10 upright operation left right different i present other =>
    refine single isGood ?_
    rintro _ _ _ ⟨⟩
    refine ⟨different, ?_⟩
    rintro _ found
    rw [present] at found
    cases found
    exact other

/-! ## Values of the terms -/

namespace Expr

/-- The tree is a node under an operation. -/
def isUnder (operation : Operation) : Expr -> Bool
  | node other _ _ => other.id == operation.id
  | _ => false

/-- An inverse node is reached from the root through nodes of the chain and
wrappers. -/
def reaches (focus inverse : Operation) : Expr -> Bool
  | node operation left right =>
    operation.id == inverse.id ||
      (operation.id == focus.id &&
        (left.reaches focus inverse || right.reaches focus inverse))
  | wrap inner => inner.reaches focus inverse
  | _ => false

/-- The tree is an inverse node and one of its operands reaches a further
one. -/
def isNested (focus inverse : Operation) : Expr -> Bool
  | node operation left right =>
    operation.id == inverse.id &&
      (left.reaches focus inverse || right.reaches focus inverse)
  | _ => false

/-- Wherever an inverse node is the right operand of an inverse node, its own
operands reach no further one. -/
def turnsOnceUnder (focus inverse : Operation) : Expr -> Bool
  | node operation left right =>
    left.turnsOnceUnder focus inverse && right.turnsOnceUnder focus inverse &&
      !(operation.id == inverse.id && right.isNested focus inverse)
  | wrap inner => inner.turnsOnceUnder focus inverse
  | _ => true

theorem isUnder_of_not_reaches
    {focus inverse : Operation}
    {e : Expr}
    (none : e.reaches focus inverse = false) :
    e.isUnder inverse = false := by
  cases e <;> simp_all [reaches, isUnder]

end Expr

variable {M : Type*} [DivisionCommMonoid M] {focus : Operation} {i : Inverse}
  {good : Expr -> Prop} {value : Expr -> M}

/-- A tree is opened, and the values of its terms multiply to `x`. -/
def Opens
    (focus : Operation)
    (i : Inverse)
    (value : Expr -> M)
    (upright : Bool)
    (e : Expr)
    (x : M) : Prop :=
  ∃ terms, openChain focus (some i) upright e = .ok terms ∧
    (terms.map value).prod = x

namespace Opens

variable {upright : Bool} {operation : Operation} {e left right turned : Expr}
  {x y : M}

/-- A term has its own value. -/
theorem single (opened : openChain focus (some i) upright e = .ok [e]) :
    Opens focus i value upright e (value e) :=
  ⟨[e], opened, by simp⟩

theorem wrap (opens : Opens focus i value upright e x) :
    Opens focus i value upright (.wrap e) x := by
  obtain ⟨terms, opened, total⟩ := opens
  exact ⟨terms, (openChain_wrap e).trans opened, total⟩

/-- The values of the operands of the focus are combined. -/
theorem node_focus
    (same : operation.id = focus.id)
    (first : Opens focus i value upright left x)
    (second : Opens focus i value upright right y) :
    Opens focus i value upright (.node operation left right) (x * y) := by
  obtain ⟨terms, opened, rfl⟩ := first
  obtain ⟨terms', opened', rfl⟩ := second
  refine ⟨terms ++ terms', ?_, by simp⟩
  rw [openChain_focus same, opened, opened']
  rfl

/-- So are the value of what is kept and that of what is turned over. -/
theorem node_inverse
    (different : operation.id ≠ focus.id)
    (same : operation.id = i.operation.id)
    (applied : i.transform.apply (if upright then right else left) = .ok turned)
    (kept : Opens focus i value upright (if upright then left else right) x)
    (opens : Opens focus i value (!upright) turned y) :
    Opens focus i value upright (.node operation left right) (x * y) := by
  obtain ⟨terms, opened, rfl⟩ := kept
  obtain ⟨terms', opened', rfl⟩ := opens
  refine ⟨terms ++ terms', ?_, by simp⟩
  rw [openChain_inverse different same applied, opened, opened']
  rfl

end Opens

/-- What is asked of the values of some trees: nodes of the focus are products
and nodes of its inverse quotients.  An operand of an inverse node is
transformed to a single term of inverse value, unless it is an inverse node
itself and left as it is. -/
structure ReadsChain
    (focus : Operation)
    (i : Inverse)
    (good : Expr -> Prop)
    (value : Expr -> M) : Prop where
  different : focus.id ≠ i.operation.id
  noBlank : ¬good .blank
  noForeign : ∀ object, ¬good (.foreign object)
  inner : ∀ e, good (.wrap e) -> good e ∧ value (.wrap e) = value e
  operands : ∀ operation left right, good (.node operation left right) ->
    operation.id = focus.id ∨ operation.id = i.operation.id ->
      good left ∧ good right
  focused : ∀ operation left right, good (.node operation left right) ->
    operation.id = focus.id -> value (.node operation left right) =
      value left * value right
  inverted : ∀ operation left right, good (.node operation left right) ->
    operation.id = i.operation.id ->
      value (.node operation left right) = value left / value right
  transformed : ∀ operation left right e, good (.node operation left right) ->
    operation.id = i.operation.id -> e = left ∨ e = right ->
      (e.isUnder i.operation = true ∧ i.transform.apply e = .ok e) ∨
        ∃ turned, i.transform.apply e = .ok turned ∧
          (∀ upright, openChain focus (some i) upright turned = .ok [turned]) ∧
          value turned = (value e)⁻¹

namespace ReadsChain

variable (reads : ReadsChain focus i good value) {operation : Operation}
  {e left right : Expr}

include reads

/-- A tree that reaches no inverse node has the value of its terms, whichever
way up it is seen. -/
theorem opens_of_not_reaches
    (isGood : good e)
    (none : e.reaches focus i.operation = false)
    (upright : Bool) :
    Opens focus i value upright e (value e) := by
  induction e with
  | node operation left right leftStep rightStep =>
    simp only [Expr.reaches, Bool.or_eq_false_iff, beq_eq_false_iff_ne] at none
    obtain ⟨notInverse, none⟩ := none
    by_cases isFocus : operation.id = focus.id
    · obtain ⟨leftGood, rightGood⟩ :=
        reads.operands operation left right isGood (.inl isFocus)
      simp only [isFocus, beq_self_eq_true, Bool.true_and,
        Bool.or_eq_false_iff] at none
      rw [reads.focused operation left right isGood isFocus]
      exact (leftStep leftGood none.1).node_focus isFocus
        (rightStep rightGood none.2)
    · exact .single (openChain_other isFocus (by rintro _ ⟨⟩; exact notInverse))
  | wrap inner inductive_step =>
    obtain ⟨innerGood, same⟩ := reads.inner inner isGood
    rw [same]
    exact (inductive_step innerGood none).wrap
  | const value => exact .single (openChain_const value)
  | var name => exact .single (openChain_var name)
  | blank => exact absurd isGood reads.noBlank
  | foreign object => exact absurd isGood (reads.noForeign object)

/-- An operand that is no inverse node is turned over to a term of inverse
value. -/
theorem exists_opens_transformed
    (isGood : good (.node operation left right))
    (isInverse : operation.id = i.operation.id)
    (isOperand : e = left ∨ e = right)
    (notUnder : e.isUnder i.operation = false)
    (upright : Bool) :
    ∃ turned, i.transform.apply e = .ok turned ∧
      Opens focus i value upright turned (value e)⁻¹ := by
  rcases reads.transformed operation left right e isGood isInverse
    isOperand with ⟨isUnder, -⟩ | ⟨turned, applied, single, inverse⟩
  · rw [notUnder] at isUnder
    cases isUnder
  · rw [← inverse]
    exact ⟨turned, applied, .single (single upright)⟩

/-- The right operand of an inverse node is turned over to terms of inverse
value, unless it is an inverse node that reaches a further one.  A node that is
kept has its operands change places when it is turned over. -/
theorem exists_opens_turned
    (isGood : good (.node operation left right))
    (isInverse : operation.id = i.operation.id)
    (flat : right.isNested focus i.operation = false) :
    ∃ turned, i.transform.apply right = .ok turned ∧
      Opens focus i value false turned (value right)⁻¹ := by
  have rightGood :=
    (reads.operands operation left right isGood (.inr isInverse)).2
  rcases reads.transformed operation left right right isGood isInverse
    (.inr rfl) with ⟨isUnder, kept⟩ | ⟨turned, applied, single, inverse⟩
  · cases right with
    | node operation' first second =>
      have isInverse' : operation'.id = i.operation.id := eq_of_beq isUnder
      obtain ⟨-, secondGood⟩ :=
        reads.operands operation' first second rightGood (.inr isInverse')
      simp only [Expr.isNested, isInverse', beq_self_eq_true, Bool.true_and,
        Bool.or_eq_false_iff] at flat
      obtain ⟨turned, applied, opens⟩ :=
        reads.exists_opens_transformed rightGood isInverse'
        (.inl rfl) (Expr.isUnder_of_not_reaches flat.1) true
      have secondOpens := reads.opens_of_not_reaches secondGood flat.2 false
      have different : operation'.id ≠ focus.id := by
        rw [isInverse']
        exact reads.different.symm
      refine ⟨_, kept, ?_⟩
      rw [reads.inverted operation' first second rightGood isInverse', inv_div,
        div_eq_mul_inv]
      exact Opens.node_inverse different isInverse' applied secondOpens opens
    | _ => cases isUnder
  · rw [← inverse]
    exact ⟨turned, applied, .single (single false)⟩

/-- The terms of a chain multiply to its value. -/
theorem opens
    (isGood : good e)
    (once : e.turnsOnceUnder focus i.operation = true) :
    Opens focus i value true e (value e) := by
  induction e with
  | node operation left right leftStep rightStep =>
    simp only [Expr.turnsOnceUnder, Bool.and_eq_true] at once
    obtain ⟨⟨leftOnce, rightOnce⟩, flat⟩ := once
    by_cases isFocus : operation.id = focus.id
    · obtain ⟨leftGood, rightGood⟩ :=
        reads.operands operation left right isGood (.inl isFocus)
      rw [reads.focused operation left right isGood isFocus]
      exact (leftStep leftGood leftOnce).node_focus isFocus
        (rightStep rightGood rightOnce)
    · by_cases isInverse : operation.id = i.operation.id
      · obtain ⟨leftGood, -⟩ :=
          reads.operands operation left right isGood (.inr isInverse)
        simp only [isInverse, beq_self_eq_true, Bool.true_and,
          Bool.not_eq_true'] at flat
        obtain ⟨turned, applied, opens⟩ :=
          reads.exists_opens_turned isGood isInverse flat
        rw [reads.inverted operation left right isGood isInverse,
          div_eq_mul_inv]
        exact Opens.node_inverse isFocus isInverse applied
          (leftStep leftGood leftOnce) opens
      · exact .single (openChain_other isFocus
          (by rintro _ ⟨⟩; exact isInverse))
  | wrap inner inductive_step =>
    obtain ⟨innerGood, same⟩ := reads.inner inner isGood
    rw [same]
    exact (inductive_step innerGood once).wrap
  | const value => exact .single (openChain_const value)
  | var name => exact .single (openChain_var name)
  | blank => exact absurd isGood reads.noBlank
  | foreign object => exact absurd isGood (reads.noForeign object)

end ReadsChain

/-! ## Transforms -/

/-- Differences as the inverse of sums. -/
def Inverse.subtraction : Inverse :=
  ⟨.difference, .negate⟩

/-- Quotients as the inverse of products. -/
def Inverse.division : Inverse :=
  ⟨.quotient, .reciprocal⟩

/-- What negation makes of a term: a constant, the term itself if it is a
difference, or a product. -/
theorem Transform.negateTerm_cases (e : Expr) :
    (∃ value, e = .const value ∧ negateTerm e = .const value.neg) ∨
      (∃ operation left right, e = .node operation left right ∧
        operation.isSame .difference = true ∧ negateTerm e = e) ∨
      negateTerm e = .node .product (.int (-1)) e := by
  cases e with
  | const value => exact .inl ⟨value, rfl, rfl⟩
  | node operation left right =>
    by_cases same : operation.isSame .difference = true
    · exact .inr (.inl ⟨operation, left, right, rfl, same,
        by simp [negateTerm, same]⟩)
    · exact .inr (.inr (by simp [negateTerm, same]))
  | _ => exact .inr (.inr rfl)

/-- What inversion makes of a factor that is no constant: the factor itself if
it is a quotient, or a power. -/
theorem Transform.invertFactor_cases
    {e : Expr}
    (notConst : e.isConst = false) :
    (∃ operation left right, e = .node operation left right ∧
        operation.isSame .quotient = true ∧ invertFactor e = .ok e) ∨
      invertFactor e = .ok (.node .power e (.int (-1))) := by
  cases e with
  | const value => cases notConst
  | node operation left right =>
    by_cases same : operation.isSame .quotient = true
    · exact .inl ⟨operation, left, right, rfl, same,
        by simp [invertFactor, same]⟩
    · exact .inr (by simp [invertFactor, same])
  | _ => exact .inr rfl

end Symbolic
