import Symbolic.Expr.Equality
import Symbolic.Expr.Fingerprint
import Symbolic.Proofs.Outcome

/-!
# What equality of trees guarantees

Equal trees differ at most in wrappers and in operations that share an id.  So
every function of trees that ignores wrappers and looks at operations through
their ids takes the same value on equal trees.  Equality itself is such a
function of either side.
-/

namespace Symbolic

/-- Numbers are the same exactly when they are equal; doubles are compared by
their bit patterns. -/
theorem Number.same_eq_true_iff
    (left right : Number) :
    left.same right = true ↔ left = right := by
  cases left with
  | int a => cases right <;> simp [same]
  | real x =>
    cases right with
    | int b => simp [same]
    | real y =>
      obtain ⟨⟨bits, valid⟩⟩ := x
      obtain ⟨⟨bits', valid'⟩⟩ := y
      constructor
      · intro isSame
        obtain rfl : bits = bits' := eq_of_beq isSame
        rfl
      · intro equal
        cases equal
        exact beq_self_eq_true bits

namespace Expr

/-- Two trees of which at least one is no node and no wrapper are equal only if
they are the same leaf. -/
theorem unequalTo_ne_true (e : Expr) : e.unequalTo ≠ .ok true := by
  cases e <;> simp [unequalTo]

/-- A function that ignores wrappers does not see the wrappers around a root. -/
theorem apply_unwrap.{u}
    {β : Type u}
    {f : Expr -> β}
    (wrapped : ∀ inner, f (wrap inner) = f inner)
    (e : Expr) :
    f e.unwrap = f e := by
  induction e with
  | wrap inner inductive_step => rw [unwrap_wrap, wrapped, inductive_step]
  | _ => rfl

@[simp] theorem unwrap_unwrap (e : Expr) : e.unwrap.unwrap = e.unwrap :=
  apply_unwrap (fun _ => rfl) e

/-- What is equal to a node has a node with the same id at its root, and equal
operands. -/
theorem exists_node_of_equal
    {operation : Operation}
    {left right e : Expr}
    (equal : (node operation left right).equal e = .ok true) :
    ∃ operation' left' right', e.unwrap = node operation' left' right' ∧
      operation.id = operation'.id ∧ left.equal left' = .ok true ∧
        right.equal right' = .ok true := by
  rw [equal_node] at equal
  split at equal
  · next operation' left' right' unwrapped =>
    split at equal
    · next sameId =>
      cases leftEqual : left.equal left' with
      | error failure => simp [leftEqual, bind, Except.bind] at equal
      | ok isEqual =>
        cases isEqual with
        | false =>
          simp [leftEqual, bind, Except.bind, pure, Except.pure] at equal
        | true =>
          simp only [leftEqual, bind, Except.bind, if_true] at equal
          exact ⟨operation', left', right', unwrapped, sameId, leftEqual, equal⟩
    · simp at equal
  · exact absurd equal (unequalTo_ne_true _)

/-- Nodes with the same id and equal operands are equal. -/
theorem equal_of_equal_operands
    {operation operation' : Operation}
    {left left' right right' : Expr}
    (sameId : operation.id = operation'.id)
    (leftEqual : left.equal left' = .ok true)
    (rightEqual : right.equal right' = .ok true) :
    (node operation left right).equal (node operation' left' right') =
      .ok true := by
  simp [equal_node, unwrap, sameId, leftEqual, rightEqual]

/-- Up to wrappers, a leaf is only equal to itself. -/
theorem unwrap_eq_of_equal
    {leaf e : Expr}
    (isLeaf : leaf.isCompound = false)
    (equal : leaf.equal e = .ok true) :
    e.unwrap = leaf := by
  cases leaf with
  | const value =>
    rw [equal_const] at equal
    split at equal
    · next value' unwrapped =>
      rw [Except.ok.injEq, Number.same_eq_true_iff] at equal
      rw [unwrapped, equal]
    · exact absurd equal (unequalTo_ne_true _)
  | var name =>
    rw [equal_var] at equal
    split at equal
    · next name' unwrapped =>
      rw [Except.ok.injEq, beq_iff_eq] at equal
      rw [unwrapped, equal]
    · exact absurd equal (unequalTo_ne_true _)
  | blank =>
    rw [equal_blank] at equal
    split at equal
    · next unwrapped => exact unwrapped
    · exact absurd equal (unequalTo_ne_true _)
  | node operation left right => cases isLeaf
  | wrap inner => cases isLeaf
  | foreign object => cases equal

/-- A function that ignores wrappers and sees operations through their ids takes
the same value on equal trees. -/
theorem congr_of_equal.{u}
    {β : Type u}
    {f : Expr -> β}
    (wrapped : ∀ inner, f (wrap inner) = f inner)
    (nodes : ∀ operation operation' left left' right right',
      operation.id = operation'.id -> f left = f left' -> f right = f right' ->
        f (node operation left right) = f (node operation' left' right'))
    {a b : Expr}
    (equal : a.equal b = .ok true) :
    f a = f b := by
  rw [← apply_unwrap wrapped b]
  induction a generalizing b with
  | wrap inner inductive_step =>
    rw [wrapped]
    exact inductive_step equal
  | node operation left right leftStep rightStep =>
    obtain ⟨operation', left', right', unwrapped, sameId, leftEqual,
        rightEqual⟩ :=
      exists_node_of_equal equal
    have sameLeft := leftStep leftEqual
    have sameRight := rightStep rightEqual
    rw [apply_unwrap wrapped] at sameLeft sameRight
    rw [unwrapped]
    exact nodes operation operation' left left' right right' sameId sameLeft
      sameRight
  | _ => rw [unwrap_eq_of_equal rfl equal]

/-- Equal trees have the same tokens. -/
theorem tokens_of_equal
    {a b : Expr}
    (equal : a.equal b = .ok true) :
    a.tokens = b.tokens :=
  congr_of_equal (fun _ => rfl)
    (fun _ _ _ _ _ _ sameId sameLeft sameRight =>
      by simp [sameId, sameLeft, sameRight]) equal

/-- Equality does not see a wrapper around the right tree. -/
@[simp] theorem equal_wrap_right
    (e inner : Expr) :
    e.equal (wrap inner) = e.equal inner := by
  induction e with
  | wrap other inductive_step => exact inductive_step
  | _ => rfl

/-- The tree without any wrapper. -/
def stripped : Expr -> Expr
  | node operation left right => node operation left.stripped right.stripped
  | wrap inner => inner.stripped
  | e => e

/-- A wrapper occurs in the tree. -/
def hasWrapper : Expr -> Bool
  | node _ left right => left.hasWrapper || right.hasWrapper
  | wrap _ => true
  | _ => false

theorem stripped_eq_self
    {e : Expr}
    (noWrapper : e.hasWrapper = false) :
    e.stripped = e := by
  induction e with
  | node operation left right leftStep rightStep =>
    obtain ⟨noLeft, noRight⟩ := Bool.or_eq_false_iff.1 noWrapper
    rw [stripped, leftStep noLeft, rightStep noRight]
  | wrap inner => cases noWrapper
  | _ => rfl

/-- Without its wrappers a tree is still equal to itself, unless it has foreign
objects. -/
theorem stripped_equal
    {e : Expr}
    (noForeign : e.foreign? = none) :
    e.stripped.equal e = .ok true := by
  induction e with
  | const value =>
    have same := (Number.same_eq_true_iff value value).2 rfl
    simp [stripped, equal_const, unwrap, same]
  | var name => simp [stripped, equal_var, unwrap]
  | blank => rfl
  | node operation left right leftStep rightStep =>
    obtain ⟨noLeft, noRight⟩ := Option.or_eq_none_iff.1 noForeign
    exact equal_of_equal_operands rfl (leftStep noLeft) (rightStep noRight)
  | wrap inner inductive_step =>
    rw [equal_wrap_right]
    exact inductive_step noForeign
  | foreign object => cases noForeign

/-- What is equal to something has no foreign objects. -/
theorem foreign?_of_equal
    {a b : Expr}
    (equal : a.equal b = .ok true) :
    a.foreign? = none := by
  induction a generalizing b with
  | wrap inner inductive_step => exact inductive_step equal
  | node operation left right leftStep rightStep =>
    obtain ⟨_, _, _, -, -, leftEqual, rightEqual⟩ := exists_node_of_equal equal
    rw [foreign?, leftStep leftEqual, rightStep rightEqual]
    rfl
  | foreign object => cases equal
  | _ => rfl

/-- Only foreign objects keep trees from being compared. -/
theorem exists_equal_eq_ok
    {a b : Expr}
    (noForeign : a.foreign? = none)
    (noForeign' : b.foreign? = none) :
    ∃ isEqual, a.equal b = .ok isEqual := by
  induction a generalizing b with
  | wrap inner inductive_step => exact inductive_step noForeign noForeign'
  | foreign object => cases noForeign
  | node operation left right leftStep rightStep =>
    obtain ⟨noLeft, noRight⟩ := Option.or_eq_none_iff.1 noForeign
    rw [← apply_unwrap (f := foreign?) (fun _ => rfl)] at noForeign'
    rw [equal_node]
    cases root : b.unwrap with
    | node operation' left' right' =>
      rw [root] at noForeign'
      obtain ⟨noLeft', noRight'⟩ := Option.or_eq_none_iff.1 noForeign'
      obtain ⟨sameLeft, leftEqual⟩ := leftStep noLeft noLeft'
      obtain ⟨sameRight, rightEqual⟩ := rightStep noRight noRight'
      simp only [leftEqual, rightEqual, Result.ok_bind]
      split
      · cases sameLeft <;> exact ⟨_, rfl⟩
      · exact ⟨_, rfl⟩
    | foreign object =>
      rw [root] at noForeign'
      cases noForeign'
    | _ => exact ⟨_, rfl⟩
  | _ =>
    rw [← apply_unwrap (f := foreign?) (fun _ => rfl)] at noForeign'
    simp only [equal_const, equal_var, equal_blank]
    cases root : b.unwrap with
    | foreign object =>
      rw [root] at noForeign'
      cases noForeign'
    | _ => exact ⟨_, rfl⟩

theorem equal_self
    {e : Expr}
    (noForeign : e.foreign? = none) :
    e.equal e = .ok true := by
  induction e with
  | const value =>
    simp [equal_const, unwrap, (Number.same_eq_true_iff value value).2 rfl]
  | var name => simp [equal_var, unwrap]
  | blank => rfl
  | node operation left right leftStep rightStep =>
    obtain ⟨noLeft, noRight⟩ := Option.or_eq_none_iff.1 noForeign
    exact equal_of_equal_operands rfl (leftStep noLeft) (rightStep noRight)
  | wrap inner inductive_step =>
    rw [equal_wrap, equal_wrap_right]
    exact inductive_step noForeign
  | foreign object => cases noForeign

/-- Equal trees are equal to the same trees. -/
theorem equal_congr_left
    {a b : Expr}
    (equal : a.equal b = .ok true)
    (e : Expr) :
    a.equal e = b.equal e := by
  refine congrFun (congr_of_equal (f := Expr.equal)
    (fun inner => funext (equal_wrap inner)) ?_ equal) e
  intro operation operation' left left' right right' sameId sameLeft sameRight
  funext e
  simp only [equal_node, sameId, sameLeft, sameRight]

/-- The same trees are equal to equal trees. -/
theorem equal_congr_right
    {a b : Expr}
    (equal : a.equal b = .ok true)
    (e : Expr) :
    e.equal a = e.equal b := by
  refine congrFun (congr_of_equal (f :=
    fun e other => other.equal e) ?_ ?_ equal) e
  · intro inner
    funext other
    exact equal_wrap_right other inner
  · intro operation operation' left left' right right' sameId sameLeft sameRight
    funext other
    induction other with
    | wrap inner inductive_step => exact inductive_step
    | node _ first second =>
      simp only [equal_node, unwrap, sameId, congrFun sameLeft first,
        congrFun sameRight second]
    | _ => rfl

theorem equal_symm
    {a b : Expr}
    (equal : a.equal b = .ok true) :
    b.equal a = .ok true := by
  rw [← equal_congr_left equal]
  exact equal_self (foreign?_of_equal equal)

end Expr
end Symbolic
