import Symbolic.Proofs.ChainReduction
import Symbolic.Proofs.EngineInvariant
import Symbolic.Proofs.Polynomial

/-!
# Constant folding

Trees of integers under sums and products are folded to an integer.  The
standard settings search tolerantly: a grouping that has the fingerprint of an
earlier one takes over its result.  The value is exact if groupings of one
fingerprint have one value; otherwise it need not be.

The groupings that matter are those that a simplification looks up: the tree
itself and every node below a node of the other operation.
-/

namespace Symbolic

/-- Trees of integers under sums and products. -/
inductive IsConstantTree : Expr -> Prop where
  | int (n : Int) : IsConstantTree (.int n)
  | sum {left right : Expr} :
    IsConstantTree left -> IsConstantTree right ->
      IsConstantTree (.node .sum left right)
  | product {left right : Expr} :
    IsConstantTree left -> IsConstantTree right ->
      IsConstantTree (.node .product left right)

namespace Expr

/-- The exact value of a tree of integers. -/
abbrev exactValue : Expr -> Int :=
  integerValue fun _ => 0

/-- The nodes of a tree that are no operands under their own operation.  `above`
is the id of the operation that the tree itself is an operand of. -/
def groupings (above : Option Int) : Expr -> List Expr
  | node operation left right =>
    let below :=
      left.groupings (some operation.id) ++ right.groupings (some operation.id)
    if above = some operation.id then below
    else node operation left right :: below
  | wrap inner => inner.groupings above
  | _ => []

/-- Groupings of one fingerprint have one value. -/
def IsSeparated (e : Expr) : Prop :=
  ∀ a ∈ e.groupings none, ∀ b ∈ e.groupings none,
    a.tokens = b.tokens -> a.exactValue = b.exactValue

instance (e : Expr) : Decidable e.IsSeparated :=
  inferInstanceAs (Decidable (∀ a ∈ e.groupings none, ∀ b ∈ e.groupings none,
    a.tokens = b.tokens -> a.exactValue = b.exactValue))

end Expr

namespace IsConstantTree

variable {e : Expr}

theorem polynomial (constant : IsConstantTree e) : IsPolynomial False e := by
  induction constant with
  | int n => exact .int n
  | sum _ _ leftStep rightStep => exact .sum leftStep rightStep
  | product _ _ leftStep rightStep => exact .product leftStep rightStep

theorem hasOnlyConstants (constant : IsConstantTree e) :
    e.hasOnlyConstants = true := by
  induction constant with
  | int n => rfl
  | sum _ _ leftStep rightStep =>
    simp [Expr.hasOnlyConstants, leftStep, rightStep]
  | product _ _ leftStep rightStep =>
    simp [Expr.hasOnlyConstants, leftStep, rightStep]

theorem operands
    {operation : Operation}
    {left right : Expr}
    (constant : IsConstantTree (.node operation left right)) :
    IsConstantTree left ∧ IsConstantTree right := by
  cases constant with
  | sum left right => exact ⟨left, right⟩
  | product left right => exact ⟨left, right⟩

theorem noInverse
    {operation : Operation}
    {left right : Expr}
    (constant : IsConstantTree (.node operation left right)) :
    operation.id ≠ Operation.difference.id ∧
      operation.id ≠ Operation.quotient.id := by
  cases constant with
  | sum => decide
  | product => decide

/-- The terms of a chain are trees of integers whose groupings are groupings of
the chain.  Below the focus a term is looked up like the root of a tree. -/
theorem forall_terms
    {focus : Operation}
    {i : Inverse}
    (isInverse : i = .subtraction ∨ i = .division)
    {left right : Expr}
    (constant : IsConstantTree (.node focus left right))
    {terms : List Expr}
    (opened : openChain focus (some i) true (.node focus left right) =
      .ok terms) :
    ∀ term ∈ terms, IsConstantTree term ∧
      ∀ a ∈ term.groupings none,
        a ∈ (Expr.node focus left right).groupings none := by
  have noInverse {operation : Operation} {left right : Expr}
      (constant : IsConstantTree (.node operation left right)) :
        operation.id ≠ i.operation.id := by
    rcases isInverse with rfl | rfl
    · exact constant.noInverse.1
    · exact constant.noInverse.2
  have inherited := forall_of_openChain (fun e => IsConstantTree e ∧
    ∀ a ∈ e.groupings (some focus.id),
      a ∈ (Expr.node focus left right).groupings none)
    (by rintro inner ⟨⟨⟩, _⟩) ?_ ?_ ⟨constant, ?_⟩ terms opened
  · intro term member
    obtain ⟨⟨termConstant, within⟩, isTerm⟩ := inherited term member
    refine ⟨termConstant, ?_⟩
    suffices sameGroupings :
        term.groupings none = term.groupings (some focus.id) by
      rw [sameGroupings]
      exact within
    cases term with
    | node operation left right =>
      have different := (isTerm operation left right rfl).1
      simp [Expr.groupings, different.symm]
    | wrap inner => cases termConstant
    | _ => rfl
  · rintro operation left' right' ⟨nodeConstant, within⟩ chained
    have isFocus : operation.id = focus.id := by
      rcases chained with isFocus | ⟨_, ⟨⟩, sameId⟩
      · exact isFocus
      · exact absurd sameId (noInverse nodeConstant)
    obtain ⟨leftConstant, rightConstant⟩ := nodeConstant.operands
    simp only [Expr.groupings, isFocus, if_true, List.mem_append] at within
    exact ⟨⟨leftConstant, fun a member => within a (.inl member)⟩,
      ⟨rightConstant, fun a member => within a (.inr member)⟩⟩
  · rintro _ operation left' right' upright turned ⟨⟩ sameId ⟨nodeConstant, _⟩
    exact absurd sameId (noInverse nodeConstant)
  · intro a member
    simp only [Expr.groupings, if_true] at member
    simp only [Expr.groupings, reduceCtorEq, if_false]
    exact List.mem_cons_of_mem _ member

end IsConstantTree

theorem isConst_of_eq_exactValue
    (term value : Expr)
    (isValue : value = .int term.exactValue) :
    value.isConst = true := by
  rw [isValue]
  rfl

/-- Folded terms are the values of the terms. -/
theorem eq_map_exactValue
    {terms values : List Expr}
    (answered : List.Forall₂
      (fun term value => value = .int term.exactValue) terms values) :
    values = terms.map fun term => .int term.exactValue := by
  induction answered with
  | nil => rfl
  | cons isValue _ inductive_step => rw [isValue, inductive_step, List.map_cons]

/-! ## The engine -/

/-- A result that is remembered while `tree` is folded is the value of one of
its groupings. -/
def Remembered.IsFolded (tree : Expr) (key : Fingerprint) (entry : Remembered) :
    Prop :=
  ∃ grouping ∈ tree.groupings none,
    grouping.tokens = key ∧ entry.result = .int grouping.exactValue

/-- A tree of integers that is met while `tree` is folded. -/
structure Expr.IsPartOf (tree e : Expr) : Prop where
  constant : IsConstantTree e
  within : ∀ a ∈ e.groupings none, a ∈ tree.groupings none

namespace Expr.IsPartOf

variable {tree e : Expr}

/-- A part that is a node is one of the groupings. -/
theorem mem_groupings
    (part : tree.IsPartOf e)
    (isCompound : e.isCompound = true) :
    e ∈ tree.groupings none := by
  apply part.within
  cases e with
  | node operation left right => simp [groupings]
  | wrap inner => cases part.constant
  | _ => cases isCompound

variable {settings : Settings} (standard : settings.registry = .standard)
  {recursion : Recursion}
  (recursive : Engine.Recursive (Remembered.IsFolded tree) tree.IsPartOf
    (fun e result => result = .int e.exactValue) recursion)

include standard recursive

/-- A sum of constants is reduced to its value. -/
theorem reduceChain_sum_keeps
    {left right : Expr}
    (part : tree.IsPartOf (.node .sum left right)) :
    (Pass.reduceChain settings recursion .sum (.node .sum left right)).Keeps
      (Cache.Holds (Remembered.IsFolded tree)) fun result =>
        result = .int (Expr.node .sum left right).exactValue := by
  refine Pass.reduceChain_keeps_of_constants isConst_of_eq_exactValue ?_
  rw [standard, chainTerms_sum]
  refine Work.Keeps.lift fun terms opened => ?_
  have polynomial : IsPolynomial False (.node .sum left right) :=
    part.constant.polynomial
  refine ⟨openChain_ne_nil polynomial.integral opened, ?_, ?_⟩
  · intro term member
    obtain ⟨constant, within⟩ :=
      part.constant.forall_terms (.inl rfl) opened term member
    refine ⟨constant.hasOnlyConstants, recursive term ⟨constant, ?_⟩⟩
    exact fun a inTerm => part.within a (within a inTerm)
  · intro values joined answered isJoined
    rw [eq_map_exactValue answered] at isJoined
    obtain ⟨⟨n, rfl⟩, joinedValue⟩ :=
      (Reading.integers fun _ => 0).value_joinAll_sum joinClosed_literals_sum
        (by simp) isJoined
    have opensValue := (Reading.integers fun _ => 0).sum_openChain
      (polynomial.isOver.mono fun _ => Operation.mem_arithmetic_of_mem_integral)
      polynomial.integral polynomial.turnsOnce opened
    have sameValue : n = (Expr.node .sum left right).exactValue := by
      calc
        n = (terms.map Expr.exactValue).sum := by
          rw [List.map_map] at joinedValue
          exact joinedValue
        _ = (Expr.node .sum left right).exactValue := opensValue
    rw [sameValue]

/-- So is a product of constants. -/
theorem reduceChain_product_keeps
    {left right : Expr}
    (part : tree.IsPartOf (.node .product left right)) :
    (Pass.reduceChain settings recursion .product
      (.node .product left right)).Keeps
      (Cache.Holds (Remembered.IsFolded tree)) fun result =>
        result = .int (Expr.node .product left right).exactValue := by
  refine Pass.reduceChain_keeps_of_constants isConst_of_eq_exactValue ?_
  rw [standard, chainTerms_product]
  refine Work.Keeps.lift fun terms opened => ?_
  have polynomial : IsPolynomial False (.node .product left right) :=
    part.constant.polynomial
  refine ⟨openChain_ne_nil polynomial.integral opened, ?_, ?_⟩
  · intro term member
    obtain ⟨constant, within⟩ :=
      part.constant.forall_terms (.inr rfl) opened term member
    refine ⟨constant.hasOnlyConstants, recursive term ⟨constant, ?_⟩⟩
    exact fun a inTerm => part.within a (within a inTerm)
  · intro values joined answered isJoined
    rw [eq_map_exactValue answered] at isJoined
    obtain ⟨⟨n, rfl⟩, joinedValue⟩ :=
      (Reading.integers fun _ => 0).value_joinAll_product
        joinClosed_literals_product (by simp) isJoined
    have opensValue :=
      (Reading.integers fun _ => 0).prod_openChain polynomial.isOver
      polynomial.integral opened
    have sameValue : n = (Expr.node .product left right).exactValue := by
      calc
        n = (terms.map Expr.exactValue).prod := by
          rw [List.map_map] at joinedValue
          exact joinedValue
        _ = (Expr.node .product left right).exactValue := opensValue
    rw [sameValue]

/-- A pass over a part gives its value and asks for no other pass. -/
theorem run_keeps
    {operation : Operation}
    {left right : Expr}
    (part : tree.IsPartOf (.node operation left right)) :
    (Pass.run settings recursion (.node operation left right)).Keeps
      (Cache.Holds (Remembered.IsFolded tree)) fun pass =>
        pass.result = .int (Expr.node operation left right).exactValue ∧
          pass.isChanged = false := by
  have continues (key : Fingerprint) (e : Expr)
      (isValue : e = .int (Expr.node operation left right).exactValue) :
      (Pass.afterReduction settings recursion key (.node operation left right)
        e).Keeps (Cache.Holds (Remembered.IsFolded tree)) fun pass =>
          pass.result = .int (Expr.node operation left right).exactValue ∧
            pass.isChanged = false := by
    subst isValue
    refine Work.Keeps.map
      (Work.Keeps.mono (recursive _ ⟨.int _, by simp [groupings]⟩) ?_)
    rintro _ rfl
    exact ⟨rfl, rfl⟩
  cases part.constant with
  | sum =>
    refine Pass.run_keeps_of_chain .sum ?_ rfl ?_
      (reduceChain_sum_keeps standard recursive part) continues
    · rw [standard]
      rfl
    · rw [standard]
      rfl
  | product =>
    refine Pass.run_keeps_of_chain .product ?_ rfl ?_
      (reduceChain_product_keeps standard recursive part) continues
    · rw [standard]
      rfl
    · rw [standard]
      rfl

end Expr.IsPartOf

/-- Folding is sound for a tree whose groupings of one fingerprint have one
value, also with tolerant searches. -/
theorem Expr.IsSeparated.engineSound
    {tree : Expr}
    (separated : tree.IsSeparated)
    {settings : Settings}
    (standard : settings.registry = .standard) :
    Engine.Sound settings (Remembered.IsFolded tree) tree.IsPartOf
      (fun e result => result = .int e.exactValue) where
  leaf := by
    intro e part isLeaf
    cases part.constant with
    | int n => rfl
    | _ => simp [Expr.isCompound] at isLeaf
  wrap := by
    rintro inner ⟨⟨⟩, _⟩
  recalls := by
    rintro e key entry part isCompound hashed
      ⟨grouping, member, sameTokens, isValue⟩ _
    rw [Expr.fingerprint_eq_ok e part.constant.polynomial.foreign?_eq_none]
      at hashed
    cases hashed
    rw [isValue, separated grouping member e (part.mem_groupings isCompound)
      sameTokens]
  remembers := by
    rintro e key _ part isCompound hashed rfl
    rw [Expr.fingerprint_eq_ok e part.constant.polynomial.foreign?_eq_none]
      at hashed
    cases hashed
    exact ⟨e, part.mem_groupings isCompound, rfl, rfl⟩
  trans := by
    rintro e _ _ rfl rfl
    rfl
  pass := by
    intro recursion recursive operation left right part
    refine Work.Keeps.mono (part.run_keeps standard recursive) ?_
    rintro pass ⟨isValue, isLast⟩
    refine ⟨isValue, ?_⟩
    rw [isLast]
    simp

/-- A tree of integers, sums and products simplifies to its exact value if its
groupings of one fingerprint have one value. -/
theorem simplified_eq_exactValue
    {tree result : Expr}
    (constant : IsConstantTree tree)
    (separated : tree.IsSeparated)
    (returned : simplified .standard tree = .ok result) :
    result = .int tree.exactValue := by
  have sound : Engine.Sound .standard _ tree.IsPartOf _ :=
    separated.engineSound rfl
  have part : tree.IsPartOf tree := ⟨constant, fun _ member => member⟩
  exact sound.law.answers_of_simplified (Cache.holds_nil _) part returned

/-- The groupings of `(2 + 3*4) * (2 + 3*4 + 5)` are separated, and it folds to
266. -/
theorem simplified_eq_exactValue_nested :
    Expr.int 266 = .int (Expr.node .product
      (.node .sum (.int 2) (.node .product (.int 3) (.int 4)))
      (.node .sum (.node .sum (.int 2) (.node .product (.int 3) (.int 4)))
        (.int 5))).exactValue := by
  refine simplified_eq_exactValue ?_ ?_ ?_
  · have inner : IsConstantTree
        (.node .sum (.int 2) (.node .product (.int 3) (.int 4))) :=
      .sum (.int 2) (.product (.int 3) (.int 4))
    exact .product inner (.sum inner (.int 5))
  · decide
  · cbv

/-- `3 + 3*2` and `3*3 + 2` have one fingerprint, so that their product folds to
81 although its value is 99. -/
theorem simplified_of_collision :
    IsConstantTree (.node .product
      (.node .sum (.int 3) (.node .product (.int 3) (.int 2)))
        (.node .sum (.node .product (.int 3) (.int 3)) (.int 2))) ∧
      (Expr.node .product
        (.node .sum (.int 3) (.node .product (.int 3) (.int 2)))
        (.node .sum (.node .product (.int 3) (.int 3)) (.int 2))).exactValue =
          99 ∧
      simplified .standard (.node .product
        (.node .sum (.int 3) (.node .product (.int 3) (.int 2)))
        (.node .sum (.node .product (.int 3) (.int 3)) (.int 2))) =
          .ok (.int 81) := by
  refine ⟨?_, rfl, ?_⟩
  · exact .product (.sum (.int 3) (.product (.int 3) (.int 2)))
      (.sum (.product (.int 3) (.int 3)) (.int 2))
  · cbv

end Symbolic
