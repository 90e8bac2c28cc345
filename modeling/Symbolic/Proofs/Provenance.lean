import Symbolic.Compiled
import Symbolic.Proofs.TreeClass

/-!
# Simplification invents nothing

Everything that a simplification works on is drawn from the tree it started
with: its variables are among those of that tree, and it has no blank unless
that tree has one.  This holds of all remembered results as well, those that are
taken for another tree with the same fingerprint included.  What a
simplification returns has in addition no wrapper, since every node in it was
built from simplified operands.

So a simplified tree can be compiled over the variables of the tree that it came
from: no variable is unknown, and no blank stands in the way if there was none
before.
-/

namespace Symbolic
namespace Expr

/-- A blank occurs in the tree. -/
def hasBlank : Expr -> Bool
  | blank => true
  | node _ left right => left.hasBlank || right.hasBlank
  | wrap inner => inner.hasBlank
  | _ => false

/-- Only blanks leave no term in a chain. -/
theorem hasBlank_of_openChain
    {focus : Operation}
    {inverse : Option Inverse}
    {upright : Bool}
    {e : Expr}
    (empty : openChain focus inverse upright e = .ok []) :
    e.hasBlank = true := by
  fun_induction openChain focus inverse upright e with
  | case1 upright => rfl
  | case2 upright value => simp at empty
  | case3 upright name => simp at empty
  | case4 upright inner inductive_step => exact inductive_step empty
  | case5 upright object => simp at empty
  | case6 upright operation left right same leftStep rightStep =>
    obtain ⟨first, second, leftOpened, -, isEmpty⟩ :=
      Result.append_eq_ok.1 empty
    obtain ⟨rfl, -⟩ := List.nil_eq_append_iff.1 isEmpty
    simp [hasBlank, leftStep leftOpened]
  | case7 upright operation left right different noInverse => simp at empty
  | case8 upright operation left right different i present same failure failed => simp at empty
  | case9 upright operation left right different i present same turned applied keptStep
      turnedStep =>
    subst present
    obtain ⟨first, second, keptOpened, -, isEmpty⟩ :=
      Result.append_eq_ok.1 empty
    obtain ⟨rfl, -⟩ := List.nil_eq_append_iff.1 isEmpty
    have keptBlank := keptStep keptOpened
    cases upright <;> simp_all [hasBlank]
  | case10 upright operation left right different i present other =>
    simp at empty

/-- The tree is over the operations of arithmetic and draws its leaves from
another one: its variables are among those of `tree`, and it has blanks only if
`tree` has. -/
structure IsDrawnFrom (tree e : Expr) : Prop where
  isOver : e.Over Operation.arithmetic
  names : ∀ name ∈ e.names, name ∈ tree.names
  noBlank : tree.hasBlank = false -> e.hasBlank = false

namespace IsDrawnFrom

variable {tree : Expr}

theorem node_iff
    {operation : Operation}
    (arithmetic : operation ∈ Operation.arithmetic)
    {left right : Expr} :
    tree.IsDrawnFrom (.node operation left right) ↔
      tree.IsDrawnFrom left ∧ tree.IsDrawnFrom right := by
  constructor
  · rintro ⟨⟨-, leftOver, rightOver⟩, names, noBlank⟩
    simp only [names_node, List.mem_append, hasBlank, Bool.or_eq_false_iff]
      at names noBlank
    exact ⟨⟨leftOver, fun name member => names name (.inl member),
      fun none => (noBlank none).1⟩,
      ⟨rightOver, fun name member => names name (.inr member),
        fun none => (noBlank none).2⟩⟩
  · rintro ⟨ofLeft, ofRight⟩
    refine ⟨⟨arithmetic, ofLeft.isOver, ofRight.isOver⟩, ?_, ?_⟩
    · intro name member
      exact (List.mem_append.1 member).elim (ofLeft.names name)
        (ofRight.names name)
    · intro none
      simp [hasBlank, ofLeft.noBlank none, ofRight.noBlank none]

/-- What is drawn from a tree is not left by simplification, and what comes out
has no wrapper. -/
theorem treeClass :
    TreeClass tree.IsDrawnFrom fun e => tree.IsDrawnFrom e ∧
      e.hasWrapper = false where
  const := fun value => ⟨trivial, by simp [Expr.names], fun _ => rfl⟩
  inner := fun e drawn => ⟨drawn.isOver, drawn.names, drawn.noBlank⟩
  operands :=
    fun operation left right drawn => (node_iff drawn.isOver.1).1 drawn
  group := fun operation primary left right ofLeft ofRight =>
    (node_iff (Operation.arithmetic_of_primary primary)).2 ⟨ofLeft, ofRight⟩
  arithmetic := fun operation left right drawn => drawn.isOver.1
  ofClean := fun e isClean => isClean.1
  leaf := fun e drawn isLeaf =>
    ⟨drawn, by cases e <;> simp_all [isCompound, hasWrapper]⟩
  notWrap := by
    rintro e ⟨-, noWrapper⟩
    cases noWrapper
  fraction := fun one e _ ofOne drawn =>
    (node_iff (by simp [Operation.arithmetic])).2 ⟨ofOne, drawn⟩
  empty := by
    intro operation _ left right focus inverse ofLeft ofRight isEmpty
    refine ⟨trivial, by simp [Expr.names], fun none => ?_⟩
    have hasBlank := hasBlank_of_openChain isEmpty
    simp [Expr.hasBlank, ofLeft.noBlank none, ofRight.noBlank none] at hasBlank
  regroup := by
    rintro operation left right left' right' drawn ⟨ofLeft, noLeft⟩
      ⟨ofRight, noRight⟩ -
    exact ⟨(node_iff drawn.isOver.1).2 ⟨ofLeft, ofRight⟩,
      by simp [hasWrapper, noLeft, noRight]⟩

/-- With any limits and any searches, simplification gives a tree without
wrappers that is drawn from the tree it started with. -/
theorem of_simplified
    {settings : Settings}
    (standard : settings.registry = .standard)
    (isOver : tree.Over Operation.arithmetic)
    {result : Expr}
    (returned : simplified settings tree = .ok result) :
    tree.IsDrawnFrom result ∧ result.hasWrapper = false := by
  have found (key : Fingerprint) (e : Expr) :
      (Work.retrieve settings key e).Keeps (Cache.Holds fun _ entry =>
        tree.IsDrawnFrom entry.result ∧ entry.result.hasWrapper = false)
          fun found =>
          ∀ result, found = some result ->
            tree.IsDrawnFrom result ∧ result.hasWrapper = false := by
    refine Work.Keeps.retrieve (by simp) ?_
    rintro entry isClean - _ ⟨⟩
    exact isClean
  have law := (treeClass : TreeClass tree.IsDrawnFrom _).law standard ?_
    (fun key e _ _ => found key e)
    (fun key source result atFront isClean =>
      Work.Keeps.remember isClean atFront)
  · have drawn : tree.IsDrawnFrom tree := ⟨isOver, fun _ => id, id⟩
    exact (law.answers_of_simplified (Cache.holds_nil _) drawn returned).1
  · intro key e _ _
    refine Work.Keeps.findEqual (by simp) ?_
    rintro entry isClean - _ ⟨⟩
    exact isClean

end IsDrawnFrom

theorem mem_variableNames
    {e : Expr}
    {name : String} :
    name ∈ e.variableNames ↔ name ∈ e.names := by
  rw [variableNames, List.mem_eraseDups, List.mem_mergeSort]

end Expr

/-- Code is made of a tree over an ordering that has all its variables, unless a
constant is too large, a blank has no value or a foreign object is met. -/
theorem Code.ofExpr_eq_error
    {names : List String}
    {e : Expr}
    (known : ∀ name ∈ e.names, name ∈ names)
    {failure : Error}
    (failed : ofExpr names e = .error failure) :
    failure = .integerTooLarge ∨
      (e.hasBlank = true ∧ failure =
        .invalidExpression "Cannot compile a blank operand" none) ∨
      ∃ object, failure = .unknownOperand .compilation object := by
  induction e with
  | blank =>
    cases failed
    exact .inr (.inl ⟨rfl, rfl⟩)
  | const value =>
    simp only [ofExpr] at failed
    split at failed
    · cases failed
    · cases failed
      exact .inl rfl
  | var name =>
    simp only [ofExpr] at failed
    split at failed
    · cases failed
    · next unknown =>
        exact absurd (known name (by simp)) (List.idxOf?_eq_none_iff.1 unknown)
  | node operation left right leftStep rightStep =>
    simp only [Expr.names_node, List.mem_append] at known
    cases leftCode : ofExpr names left with
    | error leftFailure =>
      simp only [ofExpr, leftCode, bind, Except.bind, Except.error.injEq]
        at failed
      subst failed
      refine (leftStep
        (fun name member => known name (.inl member)) leftCode).imp_right ?_
      exact Or.imp_left fun ⟨isBlank, same⟩ =>
        ⟨by simp [Expr.hasBlank, isBlank], same⟩
    | ok code =>
      cases rightCode : ofExpr names right with
      | error rightFailure =>
        simp only [ofExpr, leftCode, rightCode, bind, Except.bind,
          Except.error.injEq] at failed
        subst failed
        refine (rightStep
          (fun name member => known name (.inr member)) rightCode).imp_right ?_
        exact Or.imp_left fun ⟨isBlank, same⟩ =>
          ⟨by simp [Expr.hasBlank, isBlank], same⟩
      | ok code' =>
        simp [ofExpr, leftCode, rightCode, bind, Except.bind, pure, Except.pure]
          at failed
  | wrap inner inductive_step => exact inductive_step known failed
  | foreign object =>
    cases failed
    exact .inr (.inr ⟨object, rfl⟩)

/-- A tree that is drawn from another one may be compiled over the variables of
that one: none of its own is unknown, and it has no blank if the other tree has
none. -/
theorem Expr.IsDrawnFrom.compiled_eq_error
    {tree e : Expr}
    (drawn : tree.IsDrawnFrom e)
    {failure : Error}
    (failed : Compiled.ofExpr (some tree.variableNames) e = .error failure) :
    (∀ name known, failure ≠ .unknownVariable name known) ∧
      (tree.hasBlank = false -> ∀ problem part,
        failure ≠ .invalidExpression problem part) := by
  have known : ∀ name ∈ e.names, name ∈ tree.variableNames := fun name member =>
    mem_variableNames.2 (drawn.names name member)
  rw [Compiled.ofExpr_some] at failed
  split at failed
  · cases checked : Compiled.checkOperand e with
    | error refusal =>
      rw [checked, Result.error_bind] at failed
      cases failed
      unfold Compiled.checkOperand Expr.fingerprint at checked
      split at checked
      · cases checked
      · split at checked
        · cases checked
          simp
        · cases checked
    | ok _ =>
      rw [checked, Result.ok_bind] at failed
      cases coded : Code.ofExpr tree.variableNames e with
      | ok code =>
        rw [coded] at failed
        cases failed
      | error refusal =>
        rw [coded] at failed
        cases failed
        rcases Code.ofExpr_eq_error known coded with
          rfl | ⟨isBlank, rfl⟩ | ⟨object, rfl⟩
        · simp
        · refine ⟨by simp, fun none => ?_⟩
          simp [drawn.noBlank none] at isBlank
        · simp
  · cases failed
    simp

/-- Simplification invents nothing.  Whatever the limits are and whether
searches are tolerant or not, a tree over the operations of arithmetic becomes
one whose variables are among its own, without wrappers, and without blanks if
it had none.  So the result compiles over the variables of the tree: no variable
is unknown, and only a blank of the tree itself can be in the way. -/
theorem simplified_drawn_from_source
    (limits : Limits)
    (reusesCollisions : Bool)
    (tree result : Expr)
    (isOver : tree.Over Operation.arithmetic)
    (returned : simplified ⟨.standard, limits, reusesCollisions⟩ tree =
      .ok result) :
    (∀ name ∈ result.names, name ∈ tree.names) ∧
      result.hasWrapper = false ∧
      (tree.hasBlank = false -> result.hasBlank = false) ∧
      (∀ name known, Compiled.ofExpr (some tree.variableNames) result ≠
        .error (.unknownVariable name known)) ∧
      (tree.hasBlank = false -> ∀ problem part,
        Compiled.ofExpr (some tree.variableNames) result ≠
          .error (.invalidExpression problem part)) := by
  obtain ⟨drawn, noWrapper⟩ :=
    Expr.IsDrawnFrom.of_simplified rfl isOver returned
  refine ⟨drawn.names, noWrapper, drawn.noBlank, ?_, ?_⟩
  · intro name known failed
    exact (drawn.compiled_eq_error failed).1 name known rfl
  · intro noBlank problem part failed
    exact (drawn.compiled_eq_error failed).2 noBlank problem part rfl

/-- In `(x + (y/z)) - (x)`, both brackets being wrappers, the variable `x` is
given up, and `y * 1/z` is left. -/
theorem simplified_drawn_from_source_cancelled :
    (∀ name ∈ ["y", "z"], name ∈ ["x", "y", "z", "x"]) ∧
      ∀ name known, Compiled.ofExpr (some ["x", "y", "z"])
        (.node .product (.var "y") (.node .quotient (.int 1) (.var "z"))) ≠
          .error (.unknownVariable name known) := by
  have drawn := simplified_drawn_from_source .standard true
    (.node .difference
      (.node .sum (.var "x") (.wrap (.node .quotient (.var "y") (.var "z"))))
        (.wrap (.var "x")))
    (.node .product (.var "y") (.node .quotient (.int 1) (.var "z")))
    (by simp [Expr.Over, Operation.arithmetic]) (by cbv)
  have names : Expr.variableNames (.node .difference
      (.node .sum (.var "x") (.wrap (.node .quotient (.var "y") (.var "z"))))
      (.wrap (.var "x"))) = ["x", "y", "z"] := by
    cbv
  rw [names] at drawn
  exact ⟨drawn.1, drawn.2.2.2.1⟩

end Symbolic
