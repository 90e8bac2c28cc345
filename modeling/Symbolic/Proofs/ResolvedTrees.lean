import Symbolic.Proofs.TreeClass

/-!
# Resolved trees

A tree is resolved if it has no difference and only unit fractions as quotients.
Up to their wrappers, resolved trees form a class that simplification does not
leave: the terms of their chains are negated by products and inverted by powers,
and a negative exponent becomes a unit fraction.
-/

namespace Symbolic

/-- The operation may stay over a left operand.  Differences do not, and
quotients only as unit fractions. -/
def Operation.stays (operation : Operation) (left : Expr) : Bool :=
  operation.id != difference.id && (operation.id != quotient.id || left.isOne)

namespace Operation

theorem stays_of_primary
    {operation : Operation}
    (primary : operation ∈ Operation.primary)
    (left : Expr) :
    operation.stays left = true := by
  simp only [Operation.primary, List.mem_cons, List.not_mem_nil, or_false]
    at primary
  rcases primary with rfl | rfl | rfl <;> rfl

theorem stays_quotient
    {left : Expr}
    (isOne : left.isOne = true) :
    quotient.stays left = true := by
  simp [stays, isOne, quotient, difference]

/-- The operations that may not stay are inverses. -/
theorem eq_of_stays_eq_false
    {operation : Operation}
    (arithmetic : operation ∈ Operation.arithmetic)
    {left : Expr}
    (leaves : operation.stays left = false) :
    operation = .difference ∨ operation = .quotient := by
  rcases Operation.mem_arithmetic_iff.1 arithmetic with
    rfl | rfl | rfl | rfl | rfl
  · cases leaves
  · exact .inl rfl
  · cases leaves
  · exact .inr rfl
  · cases leaves

end Operation

namespace Expr

/-- No node of the tree is a difference, and the left operand of every quotient
is one. -/
def isResolved : Expr -> Bool
  | node operation left right =>
    operation.stays left && left.isResolved && right.isResolved
  | wrap inner => inner.isResolved
  | _ => true

theorem isOne_stripped (e : Expr) : e.stripped.isOne = e.unwrap.isOne := by
  induction e with
  | wrap inner inductive_step => exact inductive_step
  | _ => rfl

/-- Equal trees are resolved at the same time, apart from their wrappers. -/
theorem isResolved_stripped_of_equal
    {a b : Expr}
    (equal : a.equal b = .ok true) :
    a.stripped.isResolved = b.stripped.isResolved := by
  have same :=
    congr_of_equal (f := fun e => (e.stripped.isResolved, e.stripped.isOne))
    (fun inner => rfl) ?_ equal
  · exact congrArg Prod.fst same
  · intro operation operation' left left' right right' sameId sameLeft sameRight
    simp only [Prod.mk.injEq] at sameLeft sameRight
    refine Prod.ext ?_ rfl
    simp only [stripped, isResolved, Operation.stays, sameId, sameLeft,
      sameRight]

/-- The tree is over the operations of arithmetic and resolved, apart from its
wrappers. -/
structure IsSettled (e : Expr) : Prop where
  isOver : e.Over Operation.arithmetic
  resolved : e.stripped.isResolved = true

/-- The tree is settled and has no wrapper. -/
structure IsClean (e : Expr) : Prop extends e.IsSettled where
  noWrapper : e.hasWrapper = false

namespace IsSettled

theorem node_iff
    {operation : Operation}
    {left right : Expr} :
    (node operation left right).IsSettled ↔
      operation ∈ Operation.arithmetic ∧ operation.stays left.stripped = true ∧
        left.IsSettled ∧ right.IsSettled := by
  constructor
  · rintro ⟨⟨arithmetic, leftOver, rightOver⟩, resolved⟩
    simp only [stripped, isResolved, Bool.and_eq_true] at resolved
    exact ⟨arithmetic, resolved.1.1, ⟨leftOver, resolved.1.2⟩,
      ⟨rightOver, resolved.2⟩⟩
  · rintro ⟨arithmetic, stays, ⟨leftOver, leftResolved⟩,
      ⟨rightOver, rightResolved⟩⟩
    exact ⟨⟨arithmetic, leftOver, rightOver⟩,
      by simp [stripped, isResolved, stays, leftResolved, rightResolved]⟩

/-- An operation that may stay over a left operand may stay over its result. -/
theorem stays_result
    {operation : Operation}
    {left left' : Expr}
    (stays : operation.stays left.stripped = true)
    (same : left.unwrap.isConst = true -> left' = left.unwrap) :
    operation.stays left'.stripped = true := by
  simp only [Operation.stays, isOne_stripped, Bool.and_eq_true, Bool.or_eq_true]
    at stays ⊢
  refine stays.imp_right (Or.imp_right fun isOne => ?_)
  have isConst : left.unwrap.isConst = true := by
    cases unwrapped : left.unwrap <;> simp [unwrapped, Expr.isOne] at isOne ⊢
  rw [same isConst, unwrap_unwrap, isOne]

end IsSettled

theorem IsClean.node
    {operation : Operation}
    {left right : Expr}
    (arithmetic : operation ∈ Operation.arithmetic)
    (stays : operation.stays left.stripped = true)
    (leftClean : left.IsClean)
    (rightClean : right.IsClean) :
    (Expr.node operation left right).IsClean where
  toIsSettled :=
    IsSettled.node_iff.2 ⟨arithmetic, stays, leftClean.toIsSettled,
      rightClean.toIsSettled⟩
  noWrapper := by simp [hasWrapper, leftClean.noWrapper, rightClean.noWrapper]

theorem IsSettled.treeClass : TreeClass IsSettled IsClean where
  const := fun value => ⟨trivial, rfl⟩
  inner := fun e settled => ⟨settled.isOver, settled.resolved⟩
  operands := fun operation left right settled => (node_iff.1 settled).2.2
  group := fun operation primary left right leftSettled rightSettled =>
    node_iff.2 ⟨Operation.arithmetic_of_primary primary,
      Operation.stays_of_primary primary _, leftSettled, rightSettled⟩
  arithmetic := fun operation left right settled => (node_iff.1 settled).1
  ofClean := fun e isClean => isClean.toIsSettled
  leaf := fun e settled isLeaf =>
    ⟨settled, by cases e <;> simp_all [isCompound, hasWrapper]⟩
  notWrap := fun e isClean => Bool.noConfusion isClean.noWrapper
  fraction := by
    intro one e isOne oneSettled eSettled
    refine node_iff.2 ⟨by simp [Operation.arithmetic],
      Operation.stays_quotient ?_, oneSettled, eSettled⟩
    cases one <;> first | exact isOne | cases isOne
  empty :=
    fun operation arithmetic left right focus inverse _ _ _ => ⟨trivial, rfl⟩
  regroup := by
    intro operation left right left' right' settled leftClean rightClean same
    obtain ⟨arithmetic, stays, -⟩ := node_iff.1 settled
    exact .node arithmetic (stays_result stays same) leftClean rightClean

end Expr
end Symbolic
