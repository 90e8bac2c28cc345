import Symbolic.Proofs.ChainReduction
import Symbolic.Proofs.EngineInvariant

/-!
# Classes of trees that simplification does not leave

Opening a chain, collecting its terms and joining them builds new trees, but
only in a few ways: operands are taken apart, constants are added, and trees are
put under sums, products and powers.  A class of trees that is closed under
this, a `ChainClass`, is not left by the reduction of a chain.

A pass in addition puts simplified operands under their operation again and
turns negative exponents into quotients.  For a `TreeClass` it is known which
trees come out of that: over trees that are `good`, a pass gives a tree that is
`clean`.
-/

namespace Symbolic

/-- The operations of arithmetic that are no inverses. -/
def Operation.primary : List Operation :=
  [sum, product, power]

theorem Operation.arithmetic_of_primary
    {operation : Operation}
    (isPrimary : operation ∈ primary) :
    operation ∈ arithmetic := by
  simp only [primary, List.mem_cons, List.not_mem_nil, or_false] at isPrimary
  rcases isPrimary with rfl | rfl | rfl <;> simp [arithmetic]

/-- Joining evaluates constants and groups all other operands. -/
theorem Operation.join_eq_ok
    {operation : Operation}
    {a b e : Expr}
    (joined : operation.join a b = .ok e) :
    e.isConst = true ∨ e = .node operation a b := by
  unfold join at joined
  split at joined
  · cases joined
  · cases joined
  · next x y =>
    left
    simp only [evaluate] at joined
    split at joined
    · cases joined
      rfl
    · cases joined
  · cases joined
    exact .inr rfl

/-- An evaluated operation is a constant. -/
theorem Operation.isConst_of_evaluate
    {operation : Operation}
    {a b e : Expr}
    (evaluated : operation.evaluate a b = .ok e) :
    e.isConst = true := by
  unfold evaluate at evaluated
  split at evaluated
  · split at evaluated
    · cases evaluated
      rfl
    · cases evaluated
  · cases evaluated

/-- Sums and products with what the standard registry knows of them: the
operation for repeated terms, the inverse, and the identity element. -/
inductive StandardChain : Operation -> Operation -> Inverse -> Int -> Prop where
  | sum : StandardChain .sum .product .subtraction 0
  | product : StandardChain .product .power .division 1

namespace StandardChain

variable {focus promoted : Operation} {inverse : Inverse} {unit : Int}
  (chain : StandardChain focus promoted inverse unit)

include chain

theorem focus_primary : focus ∈ Operation.primary := by
  cases chain <;> simp [Operation.primary]

theorem promoted_primary : promoted ∈ Operation.primary := by
  cases chain <;> simp [Operation.primary]

/-- With the standard operations the inverse of a focus is known. -/
theorem chainTerms_eq (e : Expr) :
    chainTerms .standard focus e =
      liftM (openChain focus (some inverse) true e) := by
  cases chain
  · exact chainTerms_sum e
  · exact chainTerms_product e

/-- Opening a chain leaves the memory alone. -/
theorem outcome_chainTerms
    {e : Expr}
    {terms : List Expr}
    (opened : openChain focus (some inverse) true e = .ok terms)
    (memory : Memory) :
    (chainTerms .standard focus e).outcome memory = (.ok terms, memory) := by
  rw [chain.chainTerms_eq, opened]
  rfl

end StandardChain

/-- Every node of arithmetic goes through the chain of a sum or product, apart
from powers and unit fractions. -/
theorem Pass.goesThroughChain_cases
    {operation : Operation}
    (arithmetic : operation ∈ Operation.arithmetic)
    {left right : Expr}
    {isChain : Bool}
    (goesThrough : goesThroughChain .standard operation left right =
      .ok isChain) :
    (isChain = true ∧ ∃ promoted inverse unit,
      StandardChain (Registry.standard.focusOf operation) promoted
        inverse unit ∧
        (operation = Registry.standard.focusOf operation ∨
          operation = inverse.operation)) ∨
    (isChain = false ∧
      (operation = .power ∨ operation = .quotient ∧ left.isOne = true)) := by
  rcases Operation.mem_arithmetic_iff.1 arithmetic with
    rfl | rfl | rfl | rfl | rfl
  · cases goesThrough
    exact .inl ⟨rfl, _, _, _, .sum, .inl rfl⟩
  · cases goesThrough
    exact .inl ⟨rfl, _, _, _, .sum, .inr rfl⟩
  · cases goesThrough
    exact .inl ⟨rfl, _, _, _, .product, .inl rfl⟩
  · cases isChain with
    | true => exact .inl ⟨rfl, _, _, _, .product, .inr rfl⟩
    | false =>
      refine .inr ⟨rfl, .inr ⟨rfl, ?_⟩⟩
      by_contra notOne
      have noFraction : isUnitFraction .standard .product .quotient left right =
          .ok false := by
        simp [isUnitFraction, notOne]
      change (!·) <$> isUnitFraction .standard .product .quotient left right =
        .ok false
        at goesThrough
      rw [noFraction] at goesThrough
      cases goesThrough
  · cases goesThrough
    exact .inr ⟨rfl, .inl rfl⟩

/-- A class of trees that is closed under what happens to the terms of a
chain. -/
structure ChainClass (good : Expr -> Prop) : Prop where
  const : ∀ value, good (.const value)
  inner : ∀ e, good (.wrap e) -> good e
  operands : ∀ operation left right, good (.node operation left right) ->
    good left ∧ good right
  group : ∀ operation ∈ Operation.primary, ∀ left right, good left ->
    good right ->
    good (.node operation left right)

/-- The trees over the operations of arithmetic form a class. -/
theorem ChainClass.over_arithmetic :
    ChainClass (Expr.Over Operation.arithmetic) where
  const := fun _ => trivial
  inner := fun _ isOver => isOver
  operands := fun _ _ _ isOver => isOver.2
  group := fun _ primary _ _ leftOver rightOver =>
    ⟨Operation.arithmetic_of_primary primary, leftOver, rightOver⟩

namespace ChainClass

variable {good : Expr -> Prop} (closed : ChainClass good)

include closed

theorem of_isConst {e : Expr} (isConst : e.isConst = true) : good e := by
  cases e with
  | const value => exact closed.const value
  | _ => cases isConst

theorem unwrap {e : Expr} (isGood : good e) : good e.unwrap := by
  induction e with
  | wrap inner inductive_step =>
    exact inductive_step (closed.inner inner isGood)
  | _ => exact isGood

/-- A transform leads to trees of the class. -/
theorem transformed
    {transform : Transform}
    {e turned : Expr}
    (isGood : good e)
    (applied : transform.apply e = .ok turned) :
    good turned := by
  rcases Transform.apply_cases applied with
    ⟨-, isConst⟩ | rfl | ⟨-, -, rfl⟩ | ⟨-, -, rfl⟩
  · exact closed.of_isConst isConst
  · exact isGood
  · exact closed.group .product (by simp [Operation.primary]) _ _
      (closed.const _) isGood
  · exact closed.group .power (by simp [Operation.primary]) _ _ isGood
      (closed.const _)

/-- The terms of a tree of the class belong to it. -/
theorem forall_terms
    {focus : Operation}
    {inverse : Option Inverse}
    {upright : Bool}
    {e : Expr}
    (isGood : good e) :
    ∀ terms, openChain focus inverse upright e = .ok terms ->
      ∀ term ∈ terms, good term ∧ term.IsTerm focus inverse := by
  refine forall_of_openChain good closed.inner ?_ ?_ isGood
  · intro operation left right nodeGood _
    exact closed.operands operation left right nodeGood
  · intro i operation left right upright turned _ _ nodeGood applied
    obtain ⟨leftGood, rightGood⟩ :=
      closed.operands operation left right nodeGood
    refine closed.transformed ?_ applied
    cases upright <;> assumption

/-- Good trees are joined into a good tree. -/
theorem joined
    {operation : Operation}
    (primary : operation ∈ Operation.primary)
    {a b e : Expr}
    (leftGood : good a)
    (rightGood : good b)
    (isJoined : operation.join a b = .ok e) :
    good e := by
  rcases Operation.join_eq_ok isJoined with isConst | rfl
  · exact closed.of_isConst isConst
  · exact closed.group operation primary a b leftGood rightGood

/-- So are any number of them. -/
theorem joinedAll
    {operation : Operation}
    (primary : operation ∈ Operation.primary)
    {terms : List Expr}
    {e : Expr}
    (allGood : ∀ term ∈ terms, good term)
    (isJoined : operation.joinAll terms = .ok e) :
    good e :=
  (Operation.joinAll_total good (fun _ => ())
    (fun _ _ _ leftGood rightGood isJoined =>
      ⟨closed.joined primary leftGood rightGood isJoined, fun _ => rfl⟩)
    (fun _ _ _ _ => rfl) allGood isJoined).1

/-- Base and exponent of a tree of the class belong to it. -/
theorem splitPower
    (exponential : Option Operation)
    {e : Expr}
    (isGood : good e) :
    good (Symbolic.splitPower exponential e).1 ∧
      good (Symbolic.splitPower exponential e).2 := by
  have unwrapped := closed.unwrap isGood
  unfold Symbolic.splitPower
  split
  · next operation base exponent isNode =>
    rw [isNode] at unwrapped
    split
    · exact closed.operands operation base exponent unwrapped
    · exact ⟨unwrapped, closed.const _⟩
  · exact ⟨unwrapped, closed.const _⟩

/-- The ratio of good exponents is good. -/
theorem exponentRatio
    {first second ratio : Expr}
    (secondGood : good second)
    (found : Symbolic.exponentRatio first second = .ok (some ratio)) :
    good ratio := by
  obtain ⟨isOne, -, found⟩ := Result.bind_eq_ok.1 found
  split at found
  · cases found
    exact secondGood
  · split at found
    · simp only [Result.pure_eq_ok, Except.ok.injEq] at found
      split at found
      · cases found
        exact closed.const _
      · cases found
    · cases found

section Work

variable {invariant : Cache -> Prop} {settings : Settings}
  (standard : settings.registry = .standard) {recursion : Recursion}
  (recursive : ∀ e, good e -> (recursion e).Keeps invariant good)

include standard recursive

/-- A multiple of a term is a tree of the class. -/
theorem multiple_keeps
    {promoted : Operation}
    (isPromoted : promoted = .product ∨ promoted = .power)
    {base target : Expr}
    (targetGood : good target) :
    (multiple settings recursion promoted base target).Keeps invariant
      fun found =>
      ∀ factor, found = some factor -> good factor := by
  rcases isPromoted with rfl | rfl
  · rw [multiple_product standard, productMultiple, chainTerms_product]
    refine Work.Keeps.bind (Work.Keeps.lift fun _ opened => opened)
      fun factors opened => ?_
    have factorsGood := closed.forall_terms targetGood factors opened
    refine Work.Keeps.bind (Work.Keeps.lift fun _ found => found)
      fun found searched => ?_
    obtain _ | _ | ⟨factor, others⟩ := found
    · exact Work.Keeps.pure (by simp)
    · refine Work.Keeps.pure ?_
      rintro _ ⟨⟩
      exact closed.const _
    · obtain ⟨taken, -, permuted⟩ := withoutFirst_eq_some searched
      refine Work.Keeps.bind (Work.Keeps.lift fun _ joined => joined)
        fun cofactor joined => ?_
      refine Work.Keeps.pure ?_
      rintro _ ⟨⟩
      refine closed.joinedAll (by simp [Operation.primary]) ?_ joined
      intro e member
      exact (factorsGood e
        (permuted.mem_iff.2 (List.mem_cons_of_mem taken member))).1
  · rw [multiple_power standard, powerMultiple]
    have targetSplit :=
      closed.splitPower settings.registry.exponential targetGood
    refine Work.Keeps.bind (Work.Keeps.lift fun _ compared => compared)
      fun isEqual _ => ?_
    split
    · refine Work.Keeps.bind (Work.Keeps.lift fun _ found => found)
        fun found isRatio => ?_
      cases found with
      | none => exact Work.Keeps.pure (by simp)
      | some ratio =>
        refine Work.Keeps.bind
          (recursive ratio (closed.exponentRatio targetSplit.2 isRatio))
          fun simplified simplifiedGood => Work.Keeps.pure ?_
        rintro _ ⟨⟩
        exact simplifiedGood
    · exact Work.Keeps.pure (by simp)

end Work

/-! ## Reducing a chain -/

section Reduction

variable {focus promoted : Operation} {inverse : Inverse} {unit : Int}
  (chain : StandardChain focus promoted inverse unit) (rooted : Expr -> Prop)
  (rootedConst : ∀ value, rooted (.const value))
  (rootedNode : ∀ operation left right,
    operation = focus ∨ operation = promoted ->
    rooted (.node operation left right))
  {invariant : Cache -> Prop} {settings : Settings}
  (standard : settings.registry = .standard) {recursion : Recursion}
  (recursive : ∀ e, good e ->
    (recursion e).Keeps invariant fun result => good result ∧ rooted result)

include chain rootedConst rootedNode standard recursive

omit rootedConst in
/-- Collecting terms gives trees of the class.  `rooted` may restrict the
operation at their roots, as long as it admits that of the chain and that for
repeated terms. -/
theorem accounting :
    Accounting invariant settings recursion ⟨promoted, .sum⟩
      (fun e => good e ∧ rooted e) good (fun _ => ()) (fun _ _ _ => ()) where
  starts := ⟨closed.const _, fun _ _ => rfl⟩
  repeats := by
    intro term other coefficient _ otherGood coefficientGood
    have isPromoted : promoted = .product ∨ promoted = .power := by
      cases chain <;> simp
    have recursiveGood (e : Expr) (isGood : good e) :
        (recursion e).Keeps invariant good :=
      Work.Keeps.mono (recursive e isGood) fun _ => And.left
    refine Work.Keeps.mono
      (closed.multiple_keeps standard recursiveGood isPromoted otherGood.1)
      fun found factorGood factor isFactor increased joined => ?_
    refine ⟨?_, fun _ => rfl⟩
    exact closed.joined (by simp [Operation.primary]) coefficientGood
      (factorGood factor isFactor) joined
  passes := fun _ _ _ _ _ _ _ => rfl
  settles := by
    intro term coefficient termGood coefficientGood
    refine ⟨?_, fun _ _ _ => rfl⟩
    unfold scaled
    split
    · simp
    · split
      · simpa using termGood
      · simp only [List.mem_singleton, forall_eq]
        exact ⟨closed.group promoted chain.promoted_primary _ _ termGood.1
          coefficientGood, rootedNode promoted _ _ (.inr rfl)⟩
  reorders := fun _ _ _ => rfl

theorem reduction :
    Reduction invariant settings recursion focus (fun e => good e ∧ rooted e)
      (fun _ => True) (fun _ => ()) where
  appends := fun _ _ _ _ _ _ => rfl
  reorders := fun _ _ _ => rfl
  constants := fun _ _ => trivial
  groups := by
    intro left right leftGood rightGood
    exact ⟨⟨closed.group focus chain.focus_primary _ _ leftGood.1 rightGood.1,
      rootedNode focus _ _ (.inl rfl)⟩, trivial, rfl⟩
  simplifies := fun e isGood =>
    Work.Keeps.mono (recursive e isGood.1) fun _ resultGood =>
      ⟨resultGood, trivial, rfl⟩
  joins := by
    intro terms joined allGood isJoined
    refine ⟨(Operation.joinAll_total (fun e => good e ∧ rooted e)
      (fun _ => ()) ?_
      (fun _ _ _ _ => rfl) allGood isJoined).1, .inr trivial, rfl⟩
    intro a b e leftGood rightGood isJoined
    refine ⟨⟨closed.joined chain.focus_primary leftGood.1 rightGood.1 isJoined,
      ?_⟩, fun _ => rfl⟩
    rcases Operation.join_eq_ok isJoined with isConst | rfl
    · cases e with
      | const value => exact rootedConst value
      | _ => cases isConst
    · exact rootedNode focus a b (.inl rfl)
  collects := by
    intro terms _ allGood
    have accounting :=
      closed.accounting chain rooted rootedNode standard recursive
    have unitGood : good (.int unit) ∧ rooted (.int unit) :=
      ⟨closed.const _, rootedConst _⟩
    have collects : (collect settings recursion focus terms).Keeps invariant
        fun collected =>
        collected ≠ [] ∧ (∀ e ∈ collected, good e ∧ rooted e) ∧ () = () := by
      refine accounting.collect_keeps (.int unit) ?_ ?_ ?_ ?_ unitGood
        (fun _ => rfl) allGood
      · rw [standard]
        cases chain <;> rfl
      · rw [standard]
        rfl
      · cases chain <;> decide
      · rw [standard]
        cases chain <;> rfl
    exact Work.Keeps.mono collects fun collected ⟨notEmpty, collectedGood, _⟩ =>
      ⟨notEmpty, collectedGood, fun _ _ => trivial, rfl⟩

/-- The reduction of a chain whose terms belong to a class belongs to it too, or
is a blank if there are no terms. -/
theorem reduceChain_keeps
    {source : Expr}
    (opens : ∀ terms, openChain focus (some inverse) true source = .ok terms ->
      ∀ term ∈ terms, good term ∧ rooted term) :
    (Pass.reduceChain settings recursion focus source).Keeps invariant
      fun result =>
      (good result ∧ rooted result) ∨
        (result = .blank ∧ openChain focus (some inverse) true source =
          .ok []) := by
  have reduction :=
    closed.reduction chain rooted rootedConst rootedNode standard recursive
  have opensTerms :
      (chainTerms settings.registry focus source).Keeps invariant fun terms =>
      openChain focus (some inverse) true source = .ok terms ∧
        ∀ e ∈ terms, good e ∧ rooted e := by
    rw [standard, chain.chainTerms_eq]
    exact Work.Keeps.lift fun terms opened => ⟨opened, opens terms opened⟩
  refine Work.Keeps.mono (reduction.reduceChain_keeps_or_blank opensTerms) ?_
  rintro result (⟨_, -, resultGood, -⟩ | ⟨empty, isBlank⟩)
  · exact .inl resultGood
  · exact .inr ⟨isBlank, empty⟩

end Reduction
end ChainClass

/-! ## A pass over a tree of a class -/

/-- A power stays or becomes a unit fraction. -/
theorem Rules.negativePower_cases (base exponent : Expr) :
    negativePower .standard .power base exponent = .node .power base exponent ∨
      ∃ value, negativePower .standard .power base exponent =
        .node .quotient (.int 1) (.node .power base (.const value)) := by
  unfold negativePower
  split
  · next value inverse isInverse =>
    cases isInverse
    split
    · exact .inr ⟨_, rfl⟩
    · exact .inl rfl
  · exact .inl rfl

/-- A question that decides between a tree and further questions. -/
theorem Result.choice_eq_ok
    {α : Type}
    {asked : Result Bool}
    {chosen result : α}
    {otherwise : Result α}
    (returned : (do if ← asked then return chosen else otherwise) =
      Except.ok result) :
    result = chosen ∨ otherwise = .ok result := by
  obtain ⟨answer, -, returned⟩ := Result.bind_eq_ok.1 returned
  split at returned
  · cases returned
    exact .inl rfl
  · exact .inr returned

/-- What a rule makes of a node: a constant, an operand, the node itself, or, of
a power with a negative exponent, a unit fraction. -/
theorem Rules.apply_cases
    {operation : Operation}
    (arithmetic : operation ∈ Operation.arithmetic)
    {left right ruled : Expr}
    (applied : Rules.apply .standard operation left right = .ok ruled) :
    ruled.isConst = true ∨ ruled = left ∨ ruled = right ∨
      ruled = .node operation left right ∨
      operation = .power ∧ ∃ value,
        ruled = .node .quotient (.int 1)
          (.node .power left (.const value)) := by
  rcases Operation.mem_arithmetic_iff.1 arithmetic with
    rfl | rfl | rfl | rfl | rfl
  · change Rules.sum _ left right = _ at applied
    rcases Result.choice_eq_ok applied with rfl | applied
    · simp
    rcases Result.choice_eq_ok applied with rfl | applied
    · simp
    cases applied
    simp
  · cases applied
    simp
  · change Rules.product _ left right = _ at applied
    rcases Result.choice_eq_ok applied with rfl | applied
    · simp
    rcases Result.choice_eq_ok applied with rfl | applied
    · simp
    rcases Result.choice_eq_ok applied with rfl | applied
    · simp
    rcases Result.choice_eq_ok applied with rfl | applied
    · simp
    cases applied
    simp
  · cases applied
    simp
  · change Rules.power .standard .power left right = _ at applied
    rcases Result.choice_eq_ok applied with rfl | applied
    · simp
    rcases Result.choice_eq_ok applied with rfl | applied
    · simp
    rcases Result.choice_eq_ok applied with rfl | applied
    · simp
    rcases Result.choice_eq_ok applied with rfl | applied
    · simp
    cases applied
    rcases Rules.negativePower_cases left right with same | ⟨value, isFraction⟩
    · exact .inr (.inr (.inr (.inl same)))
    · exact .inr (.inr (.inr (.inr ⟨rfl, value, isFraction⟩)))

/-- The root of the tree is a node. -/
abbrev Expr.IsNode (e : Expr) : Prop :=
  ∃ operation left right, e = .node operation left right

/-- Trees over the operations of arithmetic that may be simplified, `good`, and
those that simplification gives, `clean`. -/
structure TreeClass (good clean : Expr -> Prop) :
    Prop extends ChainClass good where
  arithmetic : ∀ operation left right, good (.node operation left right) ->
    operation ∈ Operation.arithmetic
  ofClean : ∀ e, clean e -> good e
  leaf : ∀ e, good e -> e.isCompound = false -> clean e
  notWrap : ∀ e, ¬ clean (.wrap e)
  fraction : ∀ one e, one.isOne = true -> good one -> good e ->
    good (.node .quotient one e)
  /-- A chain without terms may become a blank. -/
  empty : ∀ operation ∈ Operation.arithmetic, ∀ left right focus inverse,
    good left -> good right ->
    openChain focus inverse true (.node operation left right) = .ok [] ->
      good .blank
  /-- Simplified operands may be put under the operation of a good tree; a
  constant left operand is known to stay. -/
  regroup : ∀ operation left right left' right',
    good (.node operation left right) ->
    clean left' -> clean right' ->
      (left.unwrap.isConst = true -> left' = left.unwrap) ->
      clean (.node operation left' right')

/-- `result` is a clean tree, and the constant itself if it is the result of
one. -/
def CleanResult (clean : Expr -> Prop) (e result : Expr) : Prop :=
  clean result ∧ (e.unwrap.isConst = true -> result = e.unwrap)

/-- A clean result suits every grouping. -/
theorem cleanResult_node
    {clean : Expr -> Prop}
    {operation : Operation}
    {left right result : Expr}
    (isClean : clean result) :
    CleanResult clean (.node operation left right) result :=
  ⟨isClean, by simp [Expr.unwrap, Expr.isConst]⟩

/-- A pass has come to a clean tree, and only a node calls for another pass. -/
def Pass.IsClean (clean : Expr -> Prop) (pass : Pass) : Prop :=
  clean pass.result ∧ (pass.isChanged = true -> pass.result.IsNode)

namespace TreeClass

variable {good clean : Expr -> Prop} (treeClass : TreeClass good clean)

include treeClass

theorem clean_const (value : Number) : clean (.const value) :=
  treeClass.leaf _ (treeClass.const value) rfl

theorem clean_of_isConst {e : Expr} (isConst : e.isConst = true) : clean e := by
  cases e with
  | const value => exact treeClass.clean_const value
  | _ => cases isConst

/-- A clean tree that is compound is a grouping. -/
theorem exists_node
    {e : Expr}
    (isClean : clean e)
    (isCompound : e.isCompound = true) :
    e.IsNode := by
  cases e with
  | node operation left right => exact ⟨operation, left, right, rfl⟩
  | wrap inner => exact absurd isClean (treeClass.notWrap inner)
  | _ => cases isCompound

/-- Rules lead from clean operands to good trees that are no wrappers. -/
theorem ruled
    {operation : Operation}
    {left right ruled : Expr}
    (nodeGood : good (.node operation left right))
    (leftClean : clean left)
    (rightClean : clean right)
    (applied : Rules.apply .standard operation left right = .ok ruled) :
    good ruled ∧ (ruled.isCompound = true -> ruled.IsNode) := by
  have arithmetic := treeClass.arithmetic _ _ _ nodeGood
  have ofClean {e : Expr} (isClean : clean e) : good e ∧
      (e.isCompound = true -> e.IsNode) :=
    ⟨treeClass.ofClean e isClean, treeClass.exists_node isClean⟩
  rcases Rules.apply_cases arithmetic applied with
    isConst | rfl | rfl | rfl | ⟨rfl, value, rfl⟩
  · exact ofClean (treeClass.clean_of_isConst isConst)
  · exact ofClean leftClean
  · exact ofClean rightClean
  · exact ⟨nodeGood, fun _ => ⟨_, _, _, rfl⟩⟩
  · refine ⟨treeClass.fraction _ _ rfl (treeClass.const _) ?_,
      fun _ => ⟨_, _, _, rfl⟩⟩
    exact treeClass.group .power (by simp [Operation.primary]) _ _
      (treeClass.ofClean _ leftClean) (treeClass.const _)

section Work

variable {invariant : Cache -> Prop} {settings : Settings}
  (standard : settings.registry = .standard) {recursion : Recursion}
  (recursive : Engine.RecursiveIn invariant good (CleanResult clean) recursion)

include recursive

/-- Simplifying the operands once more gives a clean tree. -/
theorem refine_keeps
    {e : Expr}
    (isGood : good e)
    (isNode : e.isCompound = true -> e.IsNode) :
    (Pass.refine recursion e).Keeps invariant clean := by
  unfold Pass.refine
  split
  · next operation left right =>
    obtain ⟨leftGood, rightGood⟩ := treeClass.operands _ _ _ isGood
    refine Work.Keeps.bind (recursive left leftGood) fun left' leftResult => ?_
    refine Work.Keeps.bind (recursive right rightGood) fun right' rightResult =>
      Work.Keeps.pure ?_
    exact treeClass.regroup _ _ _ _ _ isGood leftResult.1 rightResult.1
      leftResult.2
  · next noNode =>
    refine Work.Keeps.pure (treeClass.leaf e isGood ?_)
    cases isCompound : e.isCompound with
    | false => rfl
    | true =>
      obtain ⟨operation, left, right, rfl⟩ := isNode isCompound
      exact absurd rfl (noNode operation left right)

variable (remembers : ∀ key source result, clean result ->
  (Work.remember key source result false).Keeps invariant fun _ => True)

include standard remembers

/-- The end of a pass that has come to a good node. -/
theorem finish_keeps
    (key : Fingerprint)
    (source : Expr)
    {operation : Operation}
    {left right : Expr}
    (nodeGood : good (.node operation left right)) :
    (Pass.finish settings recursion key source operation left right).Keeps
      invariant (Pass.IsClean clean) := by
  obtain ⟨leftGood, rightGood⟩ := treeClass.operands _ _ _ nodeGood
  unfold Pass.finish
  rw [standard]
  refine Work.Keeps.bind (recursive left leftGood) fun left' leftResult => ?_
  refine Work.Keeps.bind (recursive right rightGood)
    fun right' rightResult => ?_
  have grouped : clean (.node operation left' right') :=
    treeClass.regroup _ _ _ _ _ nodeGood leftResult.1 rightResult.1 leftResult.2
  split
  · refine Work.Keeps.bind (Work.Keeps.lift fun _ evaluated => evaluated)
      fun value evaluated => ?_
    have isConst := Operation.isConst_of_evaluate evaluated
    exact Work.Keeps.pure ⟨treeClass.clean_of_isConst isConst,
      by simp [Pass.final]⟩
  · refine Work.Keeps.bind (remembers key source _ grouped) fun _ _ => ?_
    refine Work.Keeps.bind (Work.Keeps.lift fun _ applied => applied)
      fun ruled applied => ?_
    obtain ⟨ruledGood, isNode⟩ :=
      treeClass.ruled (treeClass.ofClean _ grouped) leftResult.1
        rightResult.1 applied
    refine Work.Keeps.bind (treeClass.refine_keeps recursive ruledGood isNode)
      fun result isClean => ?_
    split
    · next isCompound =>
      refine Work.Keeps.bind (Work.Keeps.lift fun _ hashed => hashed)
        fun _ _ => ?_
      exact Work.Keeps.pure ⟨isClean,
        fun _ => treeClass.exists_node isClean isCompound⟩
    · exact Work.Keeps.pure ⟨isClean, by simp [Pass.final]⟩

/-- A pass goes on with the outcome of a reduction. -/
theorem afterReduction_keeps
    (key : Fingerprint)
    (source : Expr)
    {e : Expr}
    (isGood : good e) :
    (Pass.afterReduction settings recursion key source e).Keeps invariant
      (Pass.IsClean clean) := by
  unfold Pass.afterReduction
  split
  · exact treeClass.finish_keeps standard recursive remembers key source isGood
  · next inner =>
    refine Work.Keeps.map
      (Work.Keeps.mono (recursive inner (treeClass.inner inner isGood)) ?_)
    exact fun result cleanResult => ⟨cleanResult.1, by simp [Pass.final]⟩
  · refine Work.Keeps.map (Work.Keeps.mono (recursive e isGood) ?_)
    exact fun result cleanResult => ⟨cleanResult.1, by simp [Pass.final]⟩

/-- A pass over a node of a chain whose operands are good. -/
theorem chain_keeps
    {focus promoted : Operation}
    {inverse : Inverse}
    {unit : Int}
    (chain : StandardChain focus promoted inverse unit)
    (key : Fingerprint)
    {operation : Operation}
    {left right : Expr}
    (belongs : operation = focus ∨ operation = inverse.operation)
    (arithmetic : operation ∈ Operation.arithmetic)
    (leftGood : good left)
    (rightGood : good right) :
    (do
      let reduced ← Pass.reduceChain settings recursion focus
        (.node operation left right)
      Pass.afterReduction settings recursion key (.node operation left right)
        reduced).Keeps invariant (Pass.IsClean clean) := by
  refine Work.Keeps.bind (treeClass.reduceChain_keeps chain (fun _ => True)
    (fun _ => trivial) (fun _ _ _ _ => trivial) standard ?_ ?_) ?_
  · intro e isGood
    exact Work.Keeps.mono (recursive e isGood) fun result cleanResult =>
      ⟨treeClass.ofClean result cleanResult.1, trivial⟩
  · -- The root itself need not be good, but it is opened.
    intro terms opened term member
    have inherited := forall_of_openChain
      (fun e => good e ∨ ∃ operation left right,
        e = .node operation left right ∧
        (operation = focus ∨ operation = inverse.operation) ∧ good left ∧
          good right)
      ?_ ?_ ?_ (.inr ⟨operation, left, right, rfl, belongs, leftGood,
        rightGood⟩) terms opened term
      member
    · obtain ⟨isGood | ⟨operation, left, right, rfl, belongs, -⟩, isTerm⟩ :=
        inherited
      · exact ⟨isGood, trivial⟩
      · obtain ⟨noFocus, noInverse⟩ := isTerm operation left right rfl
        rcases belongs with rfl | rfl
        · exact absurd rfl noFocus
        · exact absurd rfl (noInverse inverse rfl)
    · rintro inner (isGood | ⟨_, _, _, ⟨⟩, _⟩)
      exact .inl (treeClass.inner inner isGood)
    · rintro operation left right
        (isGood | ⟨_, _, _, ⟨⟩, -, leftGood, rightGood⟩) -
      · obtain ⟨leftGood, rightGood⟩ := treeClass.operands _ _ _ isGood
        exact ⟨.inl leftGood, .inl rightGood⟩
      · exact ⟨.inl leftGood, .inl rightGood⟩
    · intro i operation left right upright turned _ _ nodeGood applied
      have operandsGood : good left ∧ good right := by
        rcases nodeGood with isGood | ⟨_, _, _, ⟨⟩, -, leftGood, rightGood⟩
        · exact treeClass.operands _ _ _ isGood
        · exact ⟨leftGood, rightGood⟩
      refine .inl (treeClass.transformed ?_ applied)
      cases upright
      · exact operandsGood.1
      · exact operandsGood.2
  · rintro reduced (⟨reducedGood, -⟩ | ⟨rfl, empty⟩)
    · exact treeClass.afterReduction_keeps standard recursive remembers key _
        reducedGood
    · refine treeClass.afterReduction_keeps standard recursive remembers
        key _ ?_
      exact treeClass.empty operation arithmetic left right _ _ leftGood
        rightGood empty

/-- A pass over a node of arithmetic whose operands are good gives a clean
tree. -/
theorem run_keeps
    {operation : Operation}
    {left right : Expr}
    (arithmetic : operation ∈ Operation.arithmetic)
    (leftGood : good left)
    (rightGood : good right) :
    (Pass.run settings recursion (.node operation left right)).Keeps invariant
      (Pass.IsClean clean) := by
  rw [Pass.run_node]
  refine Work.Keeps.bind (Work.Keeps.lift fun _ hashed => hashed)
    fun key _ => ?_
  refine Work.Keeps.bind (Work.Keeps.lift fun _ goesThrough => goesThrough)
    fun isChain goesThrough => ?_
  rw [standard] at goesThrough ⊢
  rcases Pass.goesThroughChain_cases arithmetic goesThrough with
    ⟨rfl, _, _, _, chain, belongs⟩ | ⟨rfl, rfl | ⟨rfl, isOne⟩⟩
  · exact treeClass.chain_keeps standard recursive remembers chain key belongs
      arithmetic leftGood rightGood
  · refine treeClass.finish_keeps standard recursive remembers key _ ?_
    exact treeClass.group .power (by simp [Operation.primary]) _ _ leftGood
      rightGood
  · refine treeClass.finish_keeps standard recursive remembers key _ ?_
    exact treeClass.fraction left right isOne leftGood rightGood

end Work

/-- The engine does not leave the class if searches for good trees find clean
ones and clean results may be remembered.  A pass may be made over every node of
arithmetic with good operands. -/
theorem law
    {invariant : Cache -> Prop}
    {settings : Settings}
    (standard : settings.registry = .standard)
    (finds : ∀ key e, good e -> e.fingerprint = .ok key ->
      (Work.findEqual key e).Keeps invariant fun found =>
        ∀ result, found = some result -> clean result)
    (retrieves : ∀ key e, good e -> e.fingerprint = .ok key ->
      (Work.retrieve settings key e).Keeps invariant fun found =>
        ∀ result, found = some result -> clean result)
    (remembers : ∀ key source result atFront, clean result ->
      (Work.remember key source result atFront).Keeps invariant fun _ => True) :
    Engine.Law settings invariant good
      (fun e => ∀ operation left right, e = .node operation left right ->
        operation ∈ Operation.arithmetic ∧ good left ∧ good right)
      (CleanResult clean) where
  leaf := by
    intro e isGood isLeaf
    refine ⟨treeClass.leaf e isGood isLeaf, fun _ => ?_⟩
    cases e <;> first | rfl | cases isLeaf
  wrap := fun inner isGood =>
    ⟨treeClass.inner inner isGood, fun _ cleanResult => cleanResult⟩
  runs_of_admits := by
    rintro _ isGood operation left right rfl
    exact ⟨treeClass.arithmetic _ _ _ isGood, treeClass.operands _ _ _ isGood⟩
  finds := by
    intro operation left right key isGood hashed
    refine Work.Keeps.mono (finds key _ isGood hashed)
      fun found isClean result isFound => ?_
    exact cleanResult_node (isClean result isFound)
  retrieves := by
    intro operation left right key isGood hashed
    refine Work.Keeps.mono (retrieves key _ isGood hashed)
      fun found isClean result isFound => ?_
    exact cleanResult_node (isClean result isFound)
  remembers := fun operation left right key result atFront _ _ cleanResult =>
    remembers key _ result atFront cleanResult.1
  trans := by
    rintro e e' result ⟨-, same⟩ ⟨isClean, same'⟩
    refine ⟨isClean, fun isConst => ?_⟩
    obtain rfl := same isConst
    rw [Expr.unwrap_unwrap] at same'
    exact same' isConst
  pass := by
    intro recursion recursive operation left right runs
    obtain ⟨arithmetic, leftGood, rightGood⟩ := runs operation left right rfl
    refine Work.Keeps.mono (treeClass.run_keeps standard recursive
      (fun key source result => remembers key source result false) arithmetic
        leftGood rightGood) ?_
    rintro pass ⟨isClean, isNode⟩
    refine ⟨cleanResult_node isClean, fun isChanged => ?_⟩
    obtain ⟨operation, left, right, isResult⟩ := isNode isChanged
    rw [isResult] at isClean ⊢
    exact ⟨treeClass.ofClean _ isClean, cleanResult_node isClean, operation,
      left, right, rfl⟩

end TreeClass
end Symbolic
