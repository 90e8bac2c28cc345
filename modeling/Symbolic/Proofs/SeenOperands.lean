import Symbolic.Proofs.Equality
import Symbolic.Proofs.TreeClass

/-!
# What operations see of wrapped operands

A wrapper means what it encloses, but not every function looks through it.  A
difference asks whether its operands are constants or differences, a quotient
whether they are constants or quotients, a unit fraction is recognised by a
denominator that is not wrapped, and a power asks whether its exponent is a
constant.  `Operation.sees` lists the answers, and `Expr.seen` those that all
the nodes of a tree get.

Trees of arithmetic are alike when they are equal and their nodes see the same.
Whatever an operation does with its operands, it does alike with operands that
are alike.
-/

namespace Symbolic

namespace Expr

/-- The tree is a node with the id of an operation. -/
def isNodeOf (operation : Operation) : Expr -> Bool
  | node inner _ _ => inner.id == operation.id
  | _ => false

end Expr

/-- What an operation of arithmetic sees of its operands, wrappers not being
looked through. -/
def Operation.sees (operation : Operation) (left right : Expr) : List Bool :=
  if operation.id = difference.id then
    [left.isConst, left.isNodeOf difference, right.isConst,
      right.isNodeOf difference]
  else if operation.id = quotient.id then
    [left.isConst, left.isNodeOf quotient, right.isConst,
      right.isNodeOf quotient, left.isOne && right.isWrap]
  else if operation.id = power.id then [right.isConst]
  else []

namespace Expr

/-- What the nodes of the tree see of their operands. -/
def seen : Expr -> List Bool
  | node operation left right =>
    operation.sees left right ++ (left.seen ++ right.seen)
  | wrap inner => inner.seen
  | _ => []

/-- Equal trees of arithmetic whose nodes see the same of their operands. -/
structure Alike (a b : Expr) : Prop where
  isOver : a.Over Operation.arithmetic
  isOver' : b.Over Operation.arithmetic
  equal : a.equal b = .ok true
  sameSeen : a.seen = b.seen

theorem isWrap_unwrap (e : Expr) : e.unwrap.isWrap = false := by
  induction e with
  | wrap inner inductive_step => exact inductive_step
  | _ => rfl

theorem unwrap_of_isWrap_eq_false
    {e : Expr}
    (bare : e.isWrap = false) :
    e.unwrap = e := by
  cases e with
  | wrap inner => cases bare
  | _ => rfl

end Expr

/-- How much an operation sees does not depend on its operands. -/
theorem Operation.length_sees
    {operation operation' : Operation}
    (sameId : operation.id = operation'.id)
    (left left' right right' : Expr) :
    (operation.sees left right).length =
      (operation'.sees left' right').length := by
  unfold sees
  rw [sameId]
  split
  · rfl
  · split
    · rfl
    · split <;> rfl

namespace Expr

/-- Equal trees show as many operations. -/
theorem length_seen_of_equal
    {a b : Expr}
    (equal : a.equal b = .ok true) :
    a.seen.length = b.seen.length :=
  congr_of_equal (f := fun e => e.seen.length) (fun _ => rfl)
    (fun operation operation' left left' right right' sameId sameLeft sameRight => by
      have sameSees := Operation.length_sees sameId left left' right right'
      simp only [seen, List.length_append, sameSees, sameLeft, sameRight]) equal

namespace Alike

variable {a b : Expr}

/-- A tree is like itself. -/
theorem refl
    (isOver : a.Over Operation.arithmetic)
    (noForeign : a.foreign? = none) :
    a.Alike a :=
  ⟨isOver, isOver, equal_self noForeign, rfl⟩

/-- Taking the wrapper off one of two alike trees leaves them alike. -/
theorem inner_left (alike : (wrap a).Alike b) : a.Alike b :=
  ⟨alike.isOver, alike.isOver', alike.equal, alike.sameSeen⟩

theorem inner_right (alike : a.Alike (wrap b)) : a.Alike b :=
  ⟨alike.isOver, alike.isOver', (equal_wrap_right a b).symm.trans alike.equal,
    alike.sameSeen⟩

/-- So does taking off all of its wrappers. -/
theorem unwrap_left (alike : a.Alike b) : a.unwrap.Alike b := by
  induction a with
  | wrap inner inductive_step => exact inductive_step alike.inner_left
  | _ => exact alike

theorem unwrap_right (alike : a.Alike b) : a.Alike b.unwrap := by
  induction b with
  | wrap inner inductive_step => exact inductive_step alike.inner_right
  | _ => exact alike

theorem noForeign (alike : a.Alike b) : a.foreign? = none :=
  foreign?_of_equal alike.equal

theorem noForeign' (alike : a.Alike b) : b.foreign? = none :=
  foreign?_of_equal (equal_symm alike.equal)

/-- Alike trees have the same tokens, since wrappers have none. -/
theorem sameTokens (alike : a.Alike b) : a.tokens = b.tokens :=
  congr_of_equal (fun _ => rfl)
    (fun _ _ _ _ _ _ sameId sameLeft sameRight =>
      by simp [sameId, sameLeft, sameRight])
    alike.equal

/-- Alike trees have the same fingerprint. -/
theorem fingerprint_eq (alike : a.Alike b) : a.fingerprint = b.fingerprint := by
  rw [fingerprint_eq_ok a alike.noForeign, fingerprint_eq_ok b alike.noForeign',
    alike.sameTokens]

theorem hasOnlyConstants (alike : a.Alike b) :
    a.hasOnlyConstants = b.hasOnlyConstants :=
  congr_of_equal (fun _ => rfl)
    (fun _ _ _ _ _ _ _ sameLeft sameRight =>
      by simp [Expr.hasOnlyConstants, sameLeft, sameRight])
    alike.equal

/-- Alike trees are equal to the same trees, on either side. -/
theorem sameEqual
    {a' b' : Expr}
    (alike : a.Alike b)
    (alike' : a'.Alike b') :
    a.equal a' = b.equal b' := by
  rw [equal_congr_left alike.equal, equal_congr_right alike'.equal]

/-- Groupings of alike operands are alike if the operation sees the same of
them. -/
theorem node
    {operation : Operation}
    {left left' right right' : Expr}
    (arithmetic : operation ∈ Operation.arithmetic)
    (leftAlike : left.Alike left')
    (rightAlike : right.Alike right')
    (sameSeen : operation.sees left right = operation.sees left' right') :
    (Expr.node operation left right).Alike (.node operation left' right') where
  isOver := ⟨arithmetic, leftAlike.isOver, rightAlike.isOver⟩
  isOver' := ⟨arithmetic, leftAlike.isOver', rightAlike.isOver'⟩
  equal := equal_of_equal_operands rfl leftAlike.equal rightAlike.equal
  sameSeen := by
    rw [seen, seen, sameSeen, leftAlike.sameSeen, rightAlike.sameSeen]

/-- Sums and products see nothing of their operands. -/
theorem node_of_sees_nothing
    {operation : Operation}
    (isFocus : operation = .sum ∨ operation = .product)
    {left left' right right' : Expr}
    (leftAlike : left.Alike left')
    (rightAlike : right.Alike right') :
    (Expr.node operation left right).Alike (.node operation left' right') := by
  rcases isFocus with rfl | rfl <;>
    exact node (by simp [Operation.arithmetic]) leftAlike rightAlike rfl

end Alike

/-- Trees without wrappers around their roots that are alike, told apart by
their roots. -/
inductive Matched : Expr -> Expr -> Prop where
  | blank : Matched .blank .blank
  | const (value : Number) : Matched (.const value) (.const value)
  | var (name : String) : Matched (.var name) (.var name)
  | node {operation : Operation} {left left' right right' : Expr} :
    operation ∈ Operation.arithmetic -> left.Alike left' ->
      right.Alike right' ->
      operation.sees left right = operation.sees left' right' ->
        Matched (.node operation left right) (.node operation left' right')

/-- Matched trees are alike. -/
theorem Matched.alike {a b : Expr} (matched : Matched a b) : a.Alike b := by
  cases matched with
  | blank => exact .refl trivial rfl
  | const value => exact .refl trivial rfl
  | var name => exact .refl trivial rfl
  | node arithmetic leftAlike rightAlike sameSeen =>
    exact .node arithmetic leftAlike rightAlike sameSeen

/-- Alike trees have the same roots below their wrappers. -/
theorem Alike.matched {a b : Expr} (alike : a.Alike b) :
    Matched a.unwrap b.unwrap := by
  have bareAlike := alike.unwrap_left.unwrap_right
  have bare := a.isWrap_unwrap
  generalize a.unwrap = a at bareAlike bare
  obtain ⟨isOver, isOver', equal, sameSeen⟩ := bareAlike
  cases a with
  | wrap inner => cases bare
  | foreign object => cases equal
  | node operation left right =>
    obtain ⟨operation', left', right', root, sameId, leftEqual, rightEqual⟩ :=
      exists_node_of_equal equal
    rw [unwrap_unwrap] at root
    rw [root] at isOver' sameSeen ⊢
    obtain ⟨arithmetic, leftOver, rightOver⟩ := isOver
    obtain ⟨arithmetic', leftOver', rightOver'⟩ := isOver'
    obtain rfl := Operation.eq_of_id_eq arithmetic arithmetic' sameId
    obtain ⟨sameSees, sameOperands⟩ :=
      List.append_inj sameSeen
        (Operation.length_sees rfl left left' right right')
    obtain ⟨sameLeft, sameRight⟩ :=
      List.append_inj sameOperands (length_seen_of_equal leftEqual)
    exact .node arithmetic ⟨leftOver, leftOver', leftEqual, sameLeft⟩
      ⟨rightOver, rightOver', rightEqual, sameRight⟩ sameSees
  | const value =>
    rw [← unwrap_unwrap, unwrap_eq_of_equal rfl equal]
    exact .const value
  | var name =>
    rw [← unwrap_unwrap, unwrap_eq_of_equal rfl equal]
    exact .var name
  | blank =>
    rw [← unwrap_unwrap, unwrap_eq_of_equal rfl equal]
    exact .blank

/-- Alike trees without a wrapper at the top are matched. -/
theorem Alike.matched_of_bare
    {a b : Expr}
    (alike : a.Alike b)
    (bare : a.isWrap = false)
    (bare' : b.isWrap = false) :
    Matched a b := by
  have matched := alike.matched
  rwa [unwrap_of_isWrap_eq_false bare, unwrap_of_isWrap_eq_false bare']
    at matched

/-- Constants that are alike are the same. -/
theorem Alike.eq_of_isConst
    {a b : Expr}
    (alike : a.Alike b)
    (isConst : a.isConst = true)
    (isConst' : b.isConst = true) :
    a = b := by
  cases a <;> cases isConst
  cases b <;> cases isConst'
  cases alike.matched
  rfl

/-- Only constants are one. -/
theorem isOne_eq_false
    {e : Expr}
    (notConst : e.isConst = false) :
    e.isOne = false := by
  cases e with
  | const value => cases notConst
  | _ => rfl

namespace Alike

variable {a b : Expr} (alike : a.Alike b)

include alike

/-- Of alike trees that are both constants or both no constants, both or none is
one. -/
theorem isOne_eq (sameConst : a.isConst = b.isConst) : a.isOne = b.isOne := by
  cases isConst : a.isConst with
  | true => rw [alike.eq_of_isConst isConst (sameConst ▸ isConst)]
  | false => rw [isOne_eq_false isConst, isOne_eq_false (sameConst ▸ isConst)]

end Alike

namespace Matched

/-- A constant is matched with itself. -/
theorem of_isConst {e : Expr} (isConst : e.isConst = true) : e.Matched e := by
  cases e with
  | const value => exact .const value
  | _ => cases isConst

section

variable {a b : Expr} (matched : Matched a b)

include matched

theorem isConst_eq : a.isConst = b.isConst := by
  cases matched <;> rfl

theorem isZero_eq : a.isZero = b.isZero := by
  cases matched <;> rfl

theorem isOne_eq : a.isOne = b.isOne := by
  cases matched <;> rfl

theorem isCompound_eq : a.isCompound = b.isCompound := by
  cases matched <;> rfl

theorem isNodeOf_eq (operation : Operation) :
    a.isNodeOf operation = b.isNodeOf operation := by
  cases matched <;> rfl

theorem isWrap_left : a.isWrap = false := by
  cases matched <;> rfl

theorem isWrap_right : b.isWrap = false := by
  cases matched <;> rfl

end

/-- Trees without wrappers around their roots may be put under any operation: it
sees the same of them. -/
theorem group
    {operation : Operation}
    (arithmetic : operation ∈ Operation.arithmetic)
    {left left' right right' : Expr}
    (leftMatched : Matched left left')
    (rightMatched : Matched right right') :
    Matched (.node operation left right) (.node operation left' right') := by
  refine .node arithmetic leftMatched.alike rightMatched.alike ?_
  simp only [Operation.sees, leftMatched.isConst_eq, leftMatched.isNodeOf_eq,
    leftMatched.isOne_eq,
    rightMatched.isConst_eq, rightMatched.isNodeOf_eq, rightMatched.isWrap_left,
    rightMatched.isWrap_right]

end Matched
end Expr
end Symbolic
