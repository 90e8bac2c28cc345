import Symbolic.Expr.Substitution
import Symbolic.Proofs.Shapes
import Symbolic.Value

/-!
# The value of a tree after substitution

Substituting trees for variables and then evaluating has the same outcome, value
or error, as evaluating with the values of those trees in the place of the
variables.  The variables that are left are the ones that were not replaced, and
those of the trees that replaced the others.
-/

namespace Symbolic

/-- The environment in which other values hide the ones of an environment. -/
def Environment.overridden (environment values : Environment) : Environment :=
  fun name => (values name).or (environment name)

/-- A tree without foreign objects stands for itself. -/
theorem Argument.operand_tree
    {e : Expr}
    (noForeign : e.foreign? = none) :
    (Argument.tree e).operand = .ok e := by
  cases e with
  | foreign object => cases noForeign
  | _ => rfl

namespace Expr

/-- The tree with operands in the place of variables, all at once. -/
def replaced (replacement : String -> Option Operand) : Expr -> Expr
  | var name =>
    match replacement name with
    | some r => r.tree
    | none => var name
  | node operation left right =>
    node operation (left.replaced replacement) (right.replaced replacement)
  | wrap inner => wrap (inner.replaced replacement)
  | e => e

section

variable {replacement : String -> Option Operand}

/-- Nothing but a foreign object keeps operands from being substituted. -/
theorem substitute_eq_ok
    {e : Expr}
    (noForeign : e.foreign? = none) :
    e.substitute (fun name => (replacement name).map fun r => .tree r.tree) =
      .ok (e.replaced replacement) := by
  induction e with
  | var name =>
    simp only [substitute, replaced]
    cases replacement name with
    | none => rfl
    | some r => exact Argument.operand_tree r.noForeign
  | node operation left right leftStep rightStep =>
    obtain ⟨noLeft, noRight⟩ := Option.or_eq_none_iff.1 noForeign
    rw [substitute, leftStep noLeft, rightStep noRight]
    rfl
  | wrap inner inductive_step =>
    rw [substitute, inductive_step noForeign]
    rfl
  | foreign object => cases noForeign
  | _ => rfl

theorem foreign?_replaced
    {e : Expr}
    (noForeign : e.foreign? = none) :
    (e.replaced replacement).foreign? = none := by
  induction e with
  | var name =>
    simp only [replaced]
    cases replacement name with
    | none => rfl
    | some r => exact r.noForeign
  | node operation left right leftStep rightStep =>
    obtain ⟨noLeft, noRight⟩ := Option.or_eq_none_iff.1 noForeign
    rw [replaced, foreign?, leftStep noLeft, rightStep noRight, Option.none_or]
  | wrap inner inductive_step => exact inductive_step noForeign
  | foreign object => cases noForeign
  | _ => rfl

/-- An operand in the place of a variable counts as its value would. -/
theorem evaluate_replaced
    {environment : Environment}
    {values : String -> Value}
    (evaluated : ∀ name r, replacement name = some r ->
      r.tree.evaluate environment = .ok (values name))
    (e : Expr) :
    (e.replaced replacement).evaluate environment =
      e.evaluate
        (environment.overridden fun name => (replacement name).map fun _ =>
          values name) := by
  induction e with
  | var name =>
    simp only [replaced, evaluate, Environment.overridden]
    cases isReplaced : replacement name with
    | none => rfl
    | some r => exact evaluated name r isReplaced
  | node operation left right leftStep rightStep =>
    rw [replaced, evaluate, evaluate, leftStep, rightStep]
  | wrap inner inductive_step => exact inductive_step
  | _ => rfl

/-- A variable is left if it was not replaced, or if it comes with an operand
that replaced one. -/
theorem mem_names_replaced
    (name : String)
    (e : Expr) :
    name ∈ (e.replaced replacement).names ↔
      name ∈ e.names ∧ replacement name = none ∨
        ∃ other ∈ e.names, ∃ r, replacement other = some r ∧
          name ∈ r.tree.names := by
  induction e with
  | var other =>
    simp only [replaced, names_var, List.mem_singleton, exists_eq_left]
    cases isReplaced : replacement other with
    | none =>
      simp only [names_var, List.mem_singleton, reduceCtorEq, false_and,
        exists_false, or_false]
      exact ⟨fun isName => ⟨isName, isName ▸ isReplaced⟩, And.left⟩
    | some r =>
      simp only [Option.some.injEq, exists_eq_left']
      refine ⟨.inr, fun left => left.resolve_left ?_⟩
      rintro ⟨rfl, notReplaced⟩
      rw [isReplaced] at notReplaced
      cases notReplaced
  | node operation left right leftStep rightStep =>
    simp only [replaced, names_node, List.mem_append, leftStep, rightStep]
    grind
  | wrap inner inductive_step => exact inductive_step
  | _ => simp [replaced, names]

end

end Expr

namespace Operand

/-- Substitution of operands succeeds and commutes with evaluation: wherever the
operands have values, the result has the outcome of the tree at those values, be
it a value or an error.  Its variables are the ones that were not replaced and
those of the operands that replaced others. -/
theorem evaluate_substituted
    (e : Operand)
    (replacement : String -> Option Operand) :
    ∃ e' : Operand,
      e.tree.substitute (fun name => (replacement name).map fun r =>
        .tree r.tree) = .ok e'.tree ∧
      (∀ (environment : Environment) (values : String -> Value),
        (∀ name r, replacement name = some r ->
          r.tree.evaluate environment = .ok (values name)) ->
        e'.tree.evaluate environment =
          e.tree.evaluate
            (environment.overridden fun name => (replacement name).map fun _ =>
              values name)) ∧
      ∀ name, name ∈ e'.tree.names ↔
        name ∈ e.tree.names ∧ replacement name = none ∨
          ∃ other ∈ e.tree.names, ∃ r, replacement other = some r ∧
            name ∈ r.tree.names := by
  refine ⟨⟨e.tree.replaced replacement, Expr.foreign?_replaced e.noForeign⟩,
    Expr.substitute_eq_ok e.noForeign, ?_,
      fun name => Expr.mem_names_replaced name e.tree⟩
  intro environment values evaluated
  exact Expr.evaluate_replaced evaluated e.tree

/-- The difference of two variables, with the second one in the place of the
first one and a sum with the first one in the place of the second one. -/
theorem evaluate_substituted_exchanged :
    let e : Operand := ⟨.node .difference (.var "x") (.var "y"), rfl⟩
    let replacement : String -> Option Operand := fun name =>
      if name = "x" then some ⟨.var "y", rfl⟩
      else if name = "y" then some ⟨.node .sum (.var "x") (.int 1), rfl⟩
      else none
    let environment : Environment := fun name =>
      some (.number (.int (if name = "x" then 2 else 10)))
    let values : String -> Value :=
      fun name => .number (.int (if name = "x" then 10 else 3))
    (∀ name r, replacement name = some r ->
      r.tree.evaluate environment = .ok (values name)) ∧
      ∃ e' : Operand,
        e.tree.substitute
          (fun name => (replacement name).map fun r => .tree r.tree) =
          .ok e'.tree ∧
        e'.tree.evaluate environment = .ok (.number (.int 7)) ∧
        "x" ∈ e'.tree.names := by
  intro e replacement environment values
  have evaluated : ∀ name r, replacement name = some r ->
      r.tree.evaluate environment = .ok (values name) := by
    intro name r isReplaced
    by_cases isFirst : name = "x"
    · subst isFirst
      cases isReplaced
      rfl
    · by_cases isSecond : name = "y"
      · subst isSecond
        cases isReplaced
        rfl
      · simp [replacement, isFirst, isSecond] at isReplaced
  obtain ⟨e', substituted, sameOutcome, sameNames⟩ :=
    evaluate_substituted e replacement
  refine ⟨evaluated, e', substituted, ?_, ?_⟩
  · rw [sameOutcome environment values evaluated]
    rfl
  · exact (sameNames "x").2 (.inr ⟨"y", by simp [e], ⟨_, rfl⟩, rfl, by simp⟩)

end Operand
end Symbolic
