import Symbolic.Proofs.TreeClass
import Symbolic.Proofs.UnfoldedValue

/-!
# Chains that are subtracted

A chain of differences is grouped to the left, so that `b - c - d` holds the
difference `b - c`.  Where such a chain is itself subtracted, it is turned over,
and its operands change places.  This puts the signs right for a chain of two
operands.  A longer chain is met by the limit that one flag for the way up sets:
its left part is a difference again, is left as it is when it becomes the turned
operand, and is then seen upright.  So only the last operand of the chain gets
its sign, and `a - (b - c - d)` has the terms `a`, `d`, `b` and `-1*c`.

Quotients are opened in the same way.
-/

namespace Symbolic

/-- A chain of variables under one operation, grouped to the left. -/
def Expr.chainOver (operation : Operation) (first : String)
    (others : List String) : Expr :=
  others.foldl (fun e name => .node operation e (.var name)) (.var first)

theorem Expr.chainOver_concat
    (operation : Operation)
    (first last : String)
    (others : List String) :
    chainOver operation first (others ++ [last]) =
      .node operation (chainOver operation first others) (.var last) := by
  simp [chainOver]

/-- A variable that is turned over: it is negated, or inverted. -/
def Transform.turned : Transform -> String -> Expr
  | negate, name => .node .product (.int (-1)) (.var name)
  | reciprocal, name => .node .power (.var name) (.int (-1))

theorem Transform.apply_var
    (transform : Transform)
    (name : String) :
    transform.apply (.var name) = .ok (transform.turned name) := by
  cases transform <;> rfl

namespace StandardChain

variable {focus promoted : Operation} {inverse : Inverse} {unit : Int}
  (chain : StandardChain focus promoted inverse unit)

include chain

theorem inverse_ne : inverse.operation.id ≠ focus.id := by
  cases chain <;> decide

theorem openChain_turned
    (name : String)
    (upright : Bool) :
    openChain focus (some inverse) upright (inverse.transform.turned name) =
      .ok [inverse.transform.turned name] := by
  cases chain <;> exact openChain_other (by decide) (by rintro _ ⟨⟩; decide)

/-- An inverse node is not transformed. -/
theorem apply_inverse (left right : Expr) :
    inverse.transform.apply (.node inverse.operation left right) =
      .ok (.node inverse.operation left right) := by
  cases chain <;> rfl

theorem openChain_node
    (upright : Bool)
    {left right turned : Expr}
    {kept terms : List Expr}
    (keptOpened :
      openChain focus (some inverse) upright (if upright then left else right) =
      .ok kept)
    (applied : inverse.transform.apply (if upright then right else left) =
      .ok turned)
    (turnedOpened : openChain focus (some inverse) (!upright) turned =
      .ok terms) :
    openChain focus (some inverse) upright
      (.node inverse.operation left right) =
      .ok (kept ++ terms) := by
  rw [openChain_inverse chain.inverse_ne rfl applied, keptOpened, turnedOpened]
  rfl

/-- Seen upright, every operand of a chain but the first one is turned over. -/
theorem openChain_chainOver
    (first : String)
    (others : List String) :
    openChain focus (some inverse) true
      (.chainOver inverse.operation first others) =
      .ok (.var first :: others.map inverse.transform.turned) := by
  induction others using List.reverseRecOn with
  | nil => exact openChain_var first
  | append_singleton others last inductive_step =>
    rw [Expr.chainOver_concat, List.map_append]
    exact chain.openChain_node true inductive_step
      (inverse.transform.apply_var last) (chain.openChain_turned last false)

/-- Seen turned over, a chain keeps its last operand.  What is in front of it is
turned over if it is a single variable, and stays as it is otherwise. -/
theorem openChain_chainOver_turned
    (first last : String)
    (others : List String) :
    openChain focus (some inverse) false
        (.chainOver inverse.operation first (others ++ [last])) =
      .ok (.var last :: if others = [] then [inverse.transform.turned first]
        else .var first :: others.map inverse.transform.turned) := by
  rw [Expr.chainOver_concat]
  rcases List.eq_nil_or_concat others with rfl | ⟨middle, next, rfl⟩
  · exact chain.openChain_node false (openChain_var last)
      (inverse.transform.apply_var first) (chain.openChain_turned first true)
  · have opened := chain.openChain_chainOver first (middle ++ [next])
    rw [List.concat_eq_append, if_neg (by simp)]
    refine chain.openChain_node false (openChain_var last) ?_ opened
    rw [Expr.chainOver_concat]
    exact chain.apply_inverse _ _

theorem openChain_minus_var (a first : String) :
    openChain focus (some inverse) true
      (.node inverse.operation (.var a) (.var first)) =
      .ok [.var a, inverse.transform.turned first] :=
  chain.openChain_node true (openChain_var a)
    (inverse.transform.apply_var first) (chain.openChain_turned first false)

/-- The terms of a variable from which a chain of at least two operands is
subtracted. -/
theorem openChain_minus_chainOver
    (a first last : String)
    (others : List String) :
    openChain focus (some inverse) true (.node inverse.operation (.var a)
        (.chainOver inverse.operation first (others ++ [last]))) =
      .ok (.var a :: .var last :: if others =
        [] then [inverse.transform.turned first]
        else .var first :: others.map inverse.transform.turned) := by
  refine chain.openChain_node true (openChain_var a) ?_
    (chain.openChain_chainOver_turned first last others)
  rw [Expr.chainOver_concat]
  exact chain.apply_inverse _ _

end StandardChain

/-- A chain that is subtracted from a variable, or by which it is divided, is
opened with the right signs as long as it has at most two operands.  Of a longer
chain only the last operand is turned over: the terms of
`a - (b - c - … - y - z)` add up to `a + (b - c - … - y) + z`, and the factors
of `a / (b / c / … / y / z)` multiply to `a * (b / c / … / y) * z`. -/
theorem chainTerms_subtracted.{u} :
    (∀ {R : Type u} [CommRing R] (value : Expr -> R), IsRingValuation value ->
      ∀ (a first : String) (others : List String), ∃ terms,
        (∀ memory, (chainTerms .standard .sum (.node .difference (.var a)
          (.chainOver .difference first others))).outcome memory =
            (.ok terms, memory)) ∧
        (terms.map value).sum =
          if others.length ≤ 1 then
            value (.var a) - value (.var first) +
              (others.map fun name => value (.var name)).sum
          else
            value (.var a) +
              (value (.var first) - (others.dropLast.map fun name =>
                value (.var name)).sum) +
              value (.var (others.getLastD first))) ∧
    (∀ {K : Type u} [Field K] (value : Expr -> K), IsFieldValuation value ->
      ∀ (a first : String) (others : List String), ∃ factors,
        (∀ memory, (chainTerms .standard .product (.node .quotient (.var a)
          (.chainOver .quotient first others))).outcome memory =
            (.ok factors, memory)) ∧
        (factors.map value).prod =
          if others.length ≤ 1 then
            value (.var a) * (value (.var first))⁻¹ *
              (others.map fun name => value (.var name)).prod
          else
            value (.var a) *
              (value (.var first) * (others.dropLast.map fun name =>
                value (.var name)).prod⁻¹) *
              value (.var (others.getLastD first))) := by
  constructor
  · intro R _ value valuation a first others
    have negated (name : String) :
        value (Transform.negate.turned name) = -value (.var name) := by
      rw [Transform.turned, valuation.product, valuation.int]
      simp
    rcases List.eq_nil_or_concat' others with rfl | ⟨middle, last, rfl⟩
    · have opened := StandardChain.sum.openChain_minus_var a first
      refine ⟨_, StandardChain.sum.outcome_chainTerms opened, ?_⟩
      simp [Inverse.subtraction, negated, sub_eq_add_neg]
    · have opened :=
        StandardChain.sum.openChain_minus_chainOver a first last middle
      refine ⟨_, StandardChain.sum.outcome_chainTerms opened, ?_⟩
      rw [List.dropLast_concat, List.getLastD_concat]
      cases middle with
      | nil =>
        simp [Inverse.subtraction, negated]
        ring
      | cons next rest =>
        have total := List.sum_neg (rest.map fun name => value (.var name))
        simp [Inverse.subtraction, negated, Function.comp_def] at total ⊢
        rw [← total]
        ring
  · intro K _ value valuation a first others
    have inverted (name : String) :
        value (Transform.reciprocal.turned name) = (value (.var name))⁻¹ :=
      valuation.inverse _
    rcases List.eq_nil_or_concat' others with rfl | ⟨middle, last, rfl⟩
    · have opened := StandardChain.product.openChain_minus_var a first
      refine ⟨_, StandardChain.product.outcome_chainTerms opened, ?_⟩
      simp [Inverse.division, inverted]
    · have opened :=
        StandardChain.product.openChain_minus_chainOver a first last middle
      refine ⟨_, StandardChain.product.outcome_chainTerms opened, ?_⟩
      rw [List.dropLast_concat, List.getLastD_concat]
      cases middle with
      | nil =>
        simp [Inverse.division, inverted]
        ring
      | cons next rest =>
        have total := List.prod_inv (rest.map fun name => value (.var name))
        simp [Inverse.division, inverted, Function.comp_def] at total ⊢
        rw [← total]
        ring

/-- Where `a` is 10, `b` is 1, `c` is 2 and `d` is 4, the terms of
`a - (b - c - d)` add up to 10 + (1 - 2) + 4, and the factors of
`a / (b / c / d)` multiply to 10 * (1/2) * 4. -/
theorem chainTerms_subtracted_threeOperands :
    (∃ terms,
      (∀ memory, (chainTerms .standard .sum (.node .difference (.var "a")
        (.chainOver .difference "b" ["c", "d"]))).outcome memory =
          (.ok terms, memory)) ∧
        (terms.map (Expr.integerValue fun name =>
          if name = "a" then 10 else if name = "b" then 1
          else if name = "c" then 2 else 4)).sum =
          13) ∧
    ∃ factors,
      (∀ memory, (chainTerms .standard .product (.node .quotient (.var "a")
        (.chainOver .quotient "b" ["c", "d"]))).outcome memory =
          (.ok factors, memory)) ∧
        (factors.map (Expr.rationalValue fun name =>
          if name = "a" then 10 else if name = "b" then 1
          else if name = "c" then 2 else 4)).prod =
          20 := by
  constructor
  · obtain ⟨terms, returned, total⟩ := chainTerms_subtracted.1 _
      (isRingValuation_integerValue fun name =>
        if name = "a" then 10 else if name = "b" then 1
        else if name = "c" then 2 else 4)
      "a" "b" ["c", "d"]
    exact ⟨terms, returned, total.trans (by decide)⟩
  · obtain ⟨factors, returned, total⟩ := chainTerms_subtracted.2 _
      (isFieldValuation_rationalValue fun name =>
        if name = "a" then 10 else if name = "b" then 1
        else if name = "c" then 2 else 4)
      "a" "b" ["c", "d"]
    refine ⟨factors, returned, total.trans ?_⟩
    simp [Expr.rationalValue]
    norm_num

/-- A chain of three operands does not get its signs.  Where only `b` is one,
the terms of `a - (b - c - d)` add up to 1 instead of -1; where only `b` is two
and the others are one, the factors of `a / (b / c / d)` multiply to 2 instead
of 1/2. -/
theorem chainTerms_threeOperands_wrongSigns :
    (∃ terms,
      (∀ memory, (chainTerms .standard .sum (.node .difference (.var "a")
        (.chainOver .difference "b" ["c", "d"]))).outcome memory =
          (.ok terms, memory)) ∧
        (terms.map (Expr.integerValue fun name =>
          if name = "b" then 1 else 0)).sum ≠
          0 - 1 + 0 + 0) ∧
    ∃ factors,
      (∀ memory, (chainTerms .standard .product (.node .quotient (.var "a")
        (.chainOver .quotient "b" ["c", "d"]))).outcome memory =
          (.ok factors, memory)) ∧
        (factors.map (Expr.rationalValue fun name =>
          if name = "b" then 2 else 1)).prod ≠
          1 * (2 : ℚ)⁻¹ * 1 * 1 := by
  have terms := StandardChain.sum.openChain_minus_chainOver "a" "b" "d" ["c"]
  have factors :=
    StandardChain.product.openChain_minus_chainOver "a" "b" "d" ["c"]
  constructor
  · refine ⟨_, StandardChain.sum.outcome_chainTerms terms, ?_⟩
    decide
  · refine ⟨_, StandardChain.product.outcome_chainTerms factors, ?_⟩
    simp [Inverse.division, Transform.turned, Expr.rationalValue,
      Operation.power, Operation.product, Operation.quotient]
    decide +kernel

end Symbolic
