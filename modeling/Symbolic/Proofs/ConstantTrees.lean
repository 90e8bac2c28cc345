import Symbolic.Proofs.OrdinaryFailures
import Symbolic.Proofs.Provenance

/-!
# Trees of constants

A tree over the operations of arithmetic whose leaves are all constants is
simplified to a constant.  Every chain of it is evaluated term by term, so
nothing is collected, no rule is applied and no pass follows on the first one.
All that is remembered are constants, and tolerant searches find nothing else.
What keeps such a tree without wrappers from becoming a constant is a bound, or
two numbers that have no value.

A constant is its own result, so nothing changes when the result is simplified
again.
-/

namespace Symbolic
namespace Expr

/-- The tree is over the operations of arithmetic and all its leaves are
constants. -/
structure IsClosed (e : Expr) : Prop where
  isOver : e.Over Operation.arithmetic
  constants : e.hasOnlyConstants = true

theorem hasBlank_of_hasOnlyConstants
    {e : Expr}
    (constants : e.hasOnlyConstants = true) :
    e.hasBlank = false := by
  induction e with
  | node operation left right leftStep rightStep =>
    obtain ⟨leftConstants, rightConstants⟩ := Bool.and_eq_true_iff.1 constants
    simp [hasBlank, leftStep leftConstants, rightStep rightConstants]
  | wrap inner inductive_step => exact inductive_step constants
  | blank => cases constants
  | _ => rfl

theorem isPlain_of_hasOnlyConstants
    {e : Expr}
    (constants : e.hasOnlyConstants = true)
    (noWrapper : e.hasWrapper = false) :
    e.IsPlain := by
  induction e with
  | node operation left right leftStep rightStep =>
    obtain ⟨leftConstants, rightConstants⟩ := Bool.and_eq_true_iff.1 constants
    obtain ⟨noLeft, noRight⟩ := Bool.or_eq_false_iff.1 noWrapper
    exact ⟨leftStep leftConstants noLeft, rightStep rightConstants noRight⟩
  | wrap inner => cases noWrapper
  | foreign object => cases constants
  | _ => trivial

namespace IsClosed

theorem node_iff
    {operation : Operation}
    {left right : Expr} :
    (node operation left right).IsClosed ↔
      operation ∈ Operation.arithmetic ∧ left.IsClosed ∧ right.IsClosed := by
  constructor
  · rintro ⟨⟨arithmetic, leftOver, rightOver⟩, constants⟩
    obtain ⟨leftConstants, rightConstants⟩ := Bool.and_eq_true_iff.1 constants
    exact ⟨arithmetic, ⟨leftOver, leftConstants⟩, ⟨rightOver, rightConstants⟩⟩
  · rintro ⟨arithmetic, ⟨leftOver, leftConstants⟩, ⟨rightOver, rightConstants⟩⟩
    exact ⟨⟨arithmetic, leftOver, rightOver⟩,
      Bool.and_eq_true_iff.2 ⟨leftConstants, rightConstants⟩⟩

theorem chainClass : ChainClass IsClosed where
  const := fun _ => ⟨trivial, rfl⟩
  inner := fun _ closed => ⟨closed.isOver, closed.constants⟩
  operands := fun _ _ _ closed => (node_iff.1 closed).2
  group := fun _ primary _ _ leftClosed rightClosed =>
    node_iff.2 ⟨Operation.arithmetic_of_primary primary, leftClosed,
      rightClosed⟩

end IsClosed
end Expr

/-- Constants join to a constant. -/
theorem Operation.isConst_of_joinAll
    {operation : Operation}
    {terms : List Expr}
    {e : Expr}
    (constants : ∀ term ∈ terms, term.isConst = true)
    (joined : operation.joinAll terms = .ok e) :
    e.isConst = true := by
  refine (joinAll_total (fun e => e.isConst = true) (fun _ => ()) ?_
    (fun _ _ _ _ => rfl) constants joined).1
  intro a b e aConst bConst joined
  refine ⟨?_, fun _ => rfl⟩
  cases a <;> cases aConst
  cases b <;> cases bConst
  rw [join] at joined
  exact isConst_of_evaluate joined

section Pass

variable {invariant : Cache -> Prop} {settings : Settings}
  {recursion : Recursion}
  (recursive : Engine.RecursiveIn invariant Expr.IsClosed
    (fun _ result => result.isConst = true) recursion)

include recursive

/-- A chain of constants is reduced to a constant. -/
theorem reduceChain_evaluates
    (standard : settings.registry = .standard)
    {focus promoted : Operation}
    {inverse : Inverse}
    {unit : Int}
    (chain : StandardChain focus promoted inverse unit)
    {source : Expr}
    (closed : source.IsClosed) :
    (Pass.reduceChain settings recursion focus source).Keeps invariant
      fun result =>
      result.isConst = true := by
  refine Pass.reduceChain_keeps_of_constants (fun _ _ => id) ?_
  rw [standard, chain.chainTerms_eq]
  refine Work.Keeps.lift fun terms opened => ⟨?_, ?_, ?_⟩
  · rintro rfl
    have hasBlank := Expr.hasBlank_of_openChain opened
    rw [Expr.hasBlank_of_hasOnlyConstants closed.constants] at hasBlank
    cases hasBlank
  · intro term member
    have termClosed :=
      (Expr.IsClosed.chainClass.forall_terms closed terms opened term member).1
    exact ⟨termClosed.constants, recursive term termClosed⟩
  · intro values joined answered isJoined
    refine Operation.isConst_of_joinAll ?_ isJoined
    clear isJoined opened
    induction answered with
    | nil => simp
    | cons isConst _ inductive_step =>
      exact List.forall_mem_cons.2 ⟨isConst, inductive_step⟩

/-- The operands of a node of constants are evaluated and combined. -/
theorem finish_evaluates
    (key : Fingerprint)
    (source : Expr)
    (operation : Operation)
    {left right : Expr}
    (leftClosed : left.IsClosed)
    (rightClosed : right.IsClosed) :
    (Pass.finish settings recursion key source operation left right).Keeps
      invariant fun pass =>
      pass.result.isConst = true ∧ pass.isChanged = false := by
  unfold Pass.finish
  refine Work.Keeps.bind (recursive left leftClosed) fun left' leftConst => ?_
  refine Work.Keeps.bind (recursive right rightClosed)
    fun right' rightConst => ?_
  simp only [leftConst, rightConst, Bool.and_self, if_true]
  refine Work.Keeps.bind (Work.Keeps.lift fun _ evaluated => evaluated)
    fun value evaluated => ?_
  exact Work.Keeps.pure ⟨Operation.isConst_of_evaluate evaluated, rfl⟩

/-- A pass over a node of constants evaluates it. -/
theorem run_evaluates
    (standard : settings.registry = .standard)
    {operation : Operation}
    {left right : Expr}
    (closed : (Expr.node operation left right).IsClosed) :
    (Pass.run settings recursion (.node operation left right)).Keeps invariant
      fun pass =>
      pass.result.isConst = true ∧ pass.isChanged = false := by
  obtain ⟨arithmetic, leftClosed, rightClosed⟩ :=
    Expr.IsClosed.node_iff.1 closed
  rw [Pass.run_node]
  refine Work.Keeps.bind (Work.Keeps.lift fun _ hashed => hashed)
    fun key _ => ?_
  refine Work.Keeps.bind (Work.Keeps.lift fun _ goesThrough => goesThrough)
    fun isChain goesThrough => ?_
  cases isChain with
  | false =>
    exact finish_evaluates recursive key _ operation leftClosed rightClosed
  | true =>
    rw [standard] at goesThrough ⊢
    obtain ⟨-, promoted, inverse, unit, chain, -⟩ | ⟨⟨⟩, -⟩ :=
      Pass.goesThroughChain_cases arithmetic goesThrough
    refine Work.Keeps.bind
      (reduceChain_evaluates recursive standard chain closed)
      fun reduced isConst => ?_
    cases reduced with
    | const value =>
      have evaluated := recursive _ (Expr.IsClosed.chainClass.const value)
      exact Work.Keeps.map (Work.Keeps.mono evaluated fun result isConst =>
        ⟨isConst, rfl⟩)
    | _ => cases isConst

end Pass

/-- The engine evaluates trees of constants, with any memory of constants. -/
theorem evaluates_sound
    {settings : Settings}
    (standard : settings.registry = .standard) :
    Engine.Sound settings
      (fun _ entry => entry.result.isConst = true) Expr.IsClosed
      (fun _ result => result.isConst = true) where
  leaf := by
    intro e closed isLeaf
    have constants := closed.constants
    cases e <;> first | rfl | cases constants | cases isLeaf
  wrap := fun inner closed =>
    ⟨Expr.IsClosed.chainClass.inner inner closed, fun _ => id⟩
  recalls := fun _ _ _ _ _ _ isConst _ => isConst
  remembers := fun _ _ _ _ _ _ isConst => isConst
  trans := fun _ _ _ _ isConst => isConst
  pass := by
    intro recursion recursive operation left right closed
    refine Work.Keeps.mono (run_evaluates recursive standard closed) ?_
    rintro pass ⟨isConst, unchanged⟩
    refine ⟨isConst, fun isChanged => ?_⟩
    rw [unchanged] at isChanged
    cases isChanged

/-- With any limits and any searches, a tree of constants that is simplified
becomes a constant. -/
theorem isConst_of_simplified
    {settings : Settings}
    (standard : settings.registry = .standard)
    {tree result : Expr}
    (closed : tree.IsClosed)
    (returned : simplified settings tree = .ok result) :
    result.isConst = true :=
  (evaluates_sound standard).law.answers_of_simplified (Cache.holds_nil _)
    closed returned

/-- Trees of constants collapse.  With any limits and any searches, a tree of
constants without wrappers is simplified to a constant, or two numbers have no
value under an operation, or a bound is exceeded.  The failure is reported as it
is unless it quotes an integer that has too many digits. -/
theorem simplified_const_or_failure
    (limits : Limits)
    (reusesCollisions : Bool)
    (tree : Expr)
    (isOver : tree.Over Operation.arithmetic)
    (constants : tree.hasOnlyConstants = true)
    (noWrapper : tree.hasWrapper = false) :
    (∃ value, simplified ⟨.standard, limits, reusesCollisions⟩ tree =
      .ok (.const value)) ∨
      ∃ failure, simplified ⟨.standard, limits, reusesCollisions⟩ tree =
        .error failure ∧
        ((∃ symbol a b fault,
            failure = .evaluation symbol [.ofNumber a, .ofNumber b]
              (.fault fault)) ∨
          ∃ bound limit part, failure = .divergence bound limit (some part)) ∧
        (failure.settle = failure ∨ failure.settle = .tooManyDigits) := by
  have plain := Expr.isPlain_of_hasOnlyConstants constants noWrapper
  have ends :
      (simplified ⟨.standard, limits, reusesCollisions⟩ tree).EndsOrdinarily
      Expr.IsPlain :=
    simplified_endsOrdinarily Registry.supports_standard plain
  cases returned : simplified ⟨.standard, limits, reusesCollisions⟩ tree with
  | ok result =>
    have isConst := isConst_of_simplified rfl ⟨isOver, constants⟩ returned
    cases result with
    | const value => exact .inl ⟨value, rfl⟩
    | _ => cases isConst
  | error failure =>
    have ordinary := ends.failed returned
    refine .inr ⟨failure, rfl, ?_, ordinary.settle⟩
    cases ordinary with
    | divergence bound limit _ => exact .inr ⟨bound, limit, _, rfl⟩
    | evaluation symbol a b fault => exact .inl ⟨symbol, a, b, fault, rfl⟩

/-- `(7 - 3) / 2^(1 - 3)` needs the reciprocal of a power with a negative
exponent. -/
theorem simplified_const_or_failure_negativePower :
    let tree : Expr := .node .quotient (.node .difference (.int 7) (.int 3))
      (.node .power (.int 2) (.node .difference (.int 1) (.int 3)))
    tree.Over Operation.arithmetic ∧ tree.hasOnlyConstants = true ∧
      tree.hasWrapper = false ∧
      ((∃ value, simplified .standard tree = .ok (.const value)) ∨
        ∃ failure, simplified .standard tree = .error failure ∧
          ((∃ symbol a b fault,
              failure = .evaluation symbol [.ofNumber a, .ofNumber b]
                (.fault fault)) ∨
            ∃ bound limit part, failure = .divergence bound limit (some part)) ∧
          (failure.settle = failure ∨ failure.settle = .tooManyDigits)) := by
  intro tree
  have isOver : tree.Over Operation.arithmetic := by
    simp [tree, Expr.Over, Operation.arithmetic]
  exact ⟨isOver, rfl, rfl,
    simplified_const_or_failure .standard true tree isOver rfl rfl⟩

/-- What returns a tree has at least one level, and one level is enough for a
leaf. -/
theorem simplified_leaf
    {settings : Settings}
    {tree result leaf : Expr}
    (returned : simplified settings tree = .ok result)
    (isLeaf : leaf.isCompound = false)
    (noForeign : leaf.foreign? = none) :
    simplified settings leaf = .ok leaf := by
  rw [simplified_eq] at returned ⊢
  cases levels : settings.limits.depth with
  | zero =>
    rw [levels] at returned
    cases returned
  | succ levels =>
    cases leaf with
    | node operation left right => cases isLeaf
    | wrap inner => cases isLeaf
    | foreign object => cases noForeign
    | _ => rfl

/-- Simplification is idempotent on trees of constants: what they are simplified
to is not changed by simplifying it again, with any limits and any searches. -/
theorem simplified_again_of_constants
    (limits : Limits)
    (reusesCollisions : Bool)
    (tree result : Expr)
    (isOver : tree.Over Operation.arithmetic)
    (constants : tree.hasOnlyConstants = true)
    (returned : simplified ⟨.standard, limits, reusesCollisions⟩ tree =
      .ok result) :
    simplified ⟨.standard, limits, reusesCollisions⟩ result = .ok result := by
  have isConst := isConst_of_simplified rfl ⟨isOver, constants⟩ returned
  cases result with
  | const value => exact simplified_leaf returned rfl rfl
  | _ => cases isConst

end Symbolic
