import Symbolic.Proofs.Equality

/-!
# Shapes

The shape of a tree is what equality sees of it: no wrappers, and of an
operation only its id.  Operands are trees without foreign objects.  Two of them
can always be compared, and they are equal exactly when they have the same
shape.
-/

namespace Symbolic

/-- A tree without wrappers.  Operations are known by their ids, and constants
by the values of integers and the bit patterns of doubles. -/
inductive Shape where
  | blank
  | const (code : Int ⊕ UInt64)
  | var (name : String)
  | node (id : Int) (left right : Shape)
  | foreign (object : Foreign)

/-- The value of an integer or the bit pattern of a double. -/
def Number.code : Number -> Int ⊕ UInt64
  | int value => .inl value
  | real value => .inr value.toBits

theorem Number.same_eq_true_iff_code
    (left right : Number) :
    left.same right = true ↔ left.code = right.code := by
  cases left <;> cases right <;> simp [same, code]

namespace Expr

/-- The shape of a tree. -/
def shape : Expr -> Shape
  | blank => .blank
  | const value => .const value.code
  | var name => .var name
  | node operation left right => .node operation.id left.shape right.shape
  | wrap inner => inner.shape
  | foreign object => .foreign object

@[simp] theorem shape_wrap (inner : Expr) :
    (wrap inner).shape = inner.shape := rfl

/-- Equal trees have the same shape. -/
theorem shape_of_equal
    {a b : Expr}
    (equal : a.equal b = .ok true) :
    a.shape = b.shape := by
  refine congr_of_equal shape_wrap ?_ equal
  intro operation operation' left left' right right' sameId sameLeft sameRight
  rw [shape, shape, sameId, sameLeft, sameRight]

/-- Trees of the same shape are equal, unless they have foreign objects.  The
left tree gives the kind of the root, and wrappers around the right one are
taken off. -/
theorem equal_of_shape
    {a b : Expr}
    (noForeign : a.foreign? = none)
    (same : a.shape = b.shape) :
    a.equal b = .ok true := by
  induction a generalizing b with
  | wrap inner inductive_step => exact inductive_step noForeign same
  | foreign object => cases noForeign
  | node operation left right leftStep rightStep =>
    obtain ⟨noLeft, noRight⟩ := Option.or_eq_none_iff.1 noForeign
    induction b with
    | wrap inner inductive_step =>
      exact (equal_wrap_right _ inner).trans (inductive_step same)
    | node operation' left' right' =>
      injection same with sameId sameLeft sameRight
      exact equal_of_equal_operands sameId (leftStep noLeft sameLeft)
        (rightStep noRight sameRight)
    | _ => cases same
  | const value =>
    induction b with
    | wrap inner inductive_step =>
      exact (equal_wrap_right _ inner).trans (inductive_step same)
    | const value' =>
      injection same with sameCode
      simp [equal_const, unwrap,
        (Number.same_eq_true_iff_code value value').2 sameCode]
    | _ => cases same
  | var name =>
    induction b with
    | wrap inner inductive_step =>
      exact (equal_wrap_right _ inner).trans (inductive_step same)
    | var name' =>
      injection same with sameName
      simp [equal_var, unwrap, sameName]
    | _ => cases same
  | blank =>
    induction b with
    | wrap inner inductive_step =>
      exact (equal_wrap_right _ inner).trans (inductive_step same)
    | blank => rfl
    | _ => cases same

/-- Equality of trees without foreign objects is equality of their shapes. -/
theorem equal_eq_ok_true_iff
    {a b : Expr}
    (noForeign : a.foreign? = none) :
    a.equal b = .ok true ↔ a.shape = b.shape :=
  ⟨shape_of_equal, equal_of_shape noForeign⟩

end Expr

/-- A tree without foreign objects. -/
structure Operand where
  tree : Expr
  noForeign : tree.foreign? = none

namespace Operand

/-- Two operands under an operation. -/
def node (operation : Operation) (left right : Operand) : Operand where
  tree := .node operation left.tree right.tree
  noForeign := by
    rw [Expr.foreign?, left.noForeign, right.noForeign, Option.none_or]

/-- An operand in a wrapper. -/
def wrap (inner : Operand) : Operand where
  tree := .wrap inner.tree
  noForeign := inner.noForeign

/-- The comparison of two operands answers that they are equal. -/
def IsEqualTo (a b : Operand) : Prop :=
  a.tree.equal b.tree = .ok true

theorem isEqualTo_iff (a b : Operand) :
    a.IsEqualTo b ↔ a.tree.shape = b.tree.shape :=
  Expr.equal_eq_ok_true_iff a.noForeign

theorem isEqualTo_equivalence : Equivalence IsEqualTo where
  refl a := (isEqualTo_iff a a).2 rfl
  symm {a b} same := (isEqualTo_iff b a).2 ((isEqualTo_iff a b).1 same).symm
  trans {a b c} same same' :=
    (isEqualTo_iff a c).2
      (((isEqualTo_iff a b).1 same).trans ((isEqualTo_iff b c).1 same'))

/-- Equal operands may take each other's place under an operation. -/
theorem IsEqualTo.node
    {a a' b b' : Operand}
    (left : a.IsEqualTo a')
    (right : b.IsEqualTo b')
    (operation : Operation) :
    (node operation a b).IsEqualTo (node operation a' b') := by
  rw [isEqualTo_iff] at left right ⊢
  change Shape.node operation.id a.tree.shape b.tree.shape = _
  rw [left, right]
  rfl

theorem IsEqualTo.wrap
    {a b : Operand}
    (same : a.IsEqualTo b) :
    a.wrap.IsEqualTo b.wrap := by
  rw [isEqualTo_iff] at same ⊢
  exact same

/-- Equal operands have the same fingerprint. -/
theorem IsEqualTo.fingerprint_eq
    {a b : Operand}
    (same : a.IsEqualTo b) :
    ∃ key, a.tree.fingerprint = .ok key ∧ b.tree.fingerprint = .ok key := by
  refine ⟨a.tree.tokens, Expr.fingerprint_eq_ok a.tree a.noForeign, ?_⟩
  rw [Expr.tokens_of_equal same]
  exact Expr.fingerprint_eq_ok b.tree b.noForeign

/-- The comparison of operands is exact: it always has an answer, which is that
they are equal exactly when they have the same shape.  So it is an equivalence,
equal operands can take each other's place in a node or a wrapper, and they have
the same fingerprint. -/
theorem equal_decides_shape
    (a b : Operand) :
    (∃ isEqual, a.tree.equal b.tree = .ok isEqual ∧
        (isEqual = true ↔ a.tree.shape = b.tree.shape)) ∧
      Equivalence IsEqualTo ∧
      (a.IsEqualTo b ->
        a.wrap.IsEqualTo b.wrap ∧
          (∀ operation c, (node operation a c).IsEqualTo (node operation b c) ∧
            (node operation c a).IsEqualTo (node operation c b)) ∧
          ∃ key, a.tree.fingerprint = .ok key ∧
            b.tree.fingerprint = .ok key) := by
  refine ⟨?_, isEqualTo_equivalence,
    fun same => ⟨same.wrap, fun operation c => ?_, same.fingerprint_eq⟩⟩
  · obtain ⟨isEqual, compared⟩ :=
      Expr.exists_equal_eq_ok a.noForeign b.noForeign
    refine ⟨isEqual, compared, ?_⟩
    rw [← isEqualTo_iff, IsEqualTo, compared, Except.ok.injEq]
  · have self := isEqualTo_equivalence.refl c
    exact ⟨same.node self operation, self.node same operation⟩

/-- The same sum with its wrappers in different places. -/
theorem equal_decides_shape_wrapped :
    let a : Operand :=
      ⟨.wrap (.node .sum (.var "x") (.wrap (.const (.real 0.5)))), rfl⟩
    let b : Operand :=
      ⟨.node .sum (.wrap (.wrap (.var "x"))) (.const (.real 0.5)), rfl⟩
    a.tree.shape = b.tree.shape ∧ a.IsEqualTo b ∧
      (node .power a a).IsEqualTo (node .power b a) ∧
      ∃ key, a.tree.fingerprint = .ok key ∧ b.tree.fingerprint = .ok key := by
  intro a b
  have sameShape : a.tree.shape = b.tree.shape := rfl
  obtain ⟨⟨isEqual, compared, exact_iff⟩, -, replaceable⟩ :=
    equal_decides_shape a b
  have same : a.IsEqualTo b := by
    rw [IsEqualTo, compared, exact_iff.2 sameShape]
  obtain ⟨-, grouped, sameKey⟩ := replaceable same
  exact ⟨sameShape, same, (grouped .power a).1, sameKey⟩

end Operand
end Symbolic
