import Symbolic.Chain.Multiple
import Symbolic.Proofs.ChainOpening
import Symbolic.Proofs.WorkLogic

/-!
# Opening a chain with a stack

A chain can be opened without recursion: the trees that are still to be opened
lie on a stack, and the root of the topmost one is opened, again and again,
until the stack is empty.  The loop finds the terms of the chain in their order,
and it meets the same failure.

Every pop of an inverse node puts a transformed operand back, which can be
larger than what was taken away and can be an inverse node itself, if the
inverse operation has the id of the product or of the power.  But a transformed
operand is opened at most twice before its own operand is reached, once in each
view, because the constant that the transform adds is turned into a constant.
So the number of pops is linear in the size of the tree.
-/

namespace Symbolic

/-- A tree that is still to be opened, and whether it is seen upright. -/
structure Pending where
  tree : Expr
  upright : Bool

/-- Open the root of a tree.  The result is what is put back on the stack, the
first tree on top, and the terms that are found. -/
def Pending.openRoot
    (focus : Operation)
    (inverse : Option Inverse)
    (entry : Pending) : Result (List Pending × List Expr) :=
  match entry.tree with
  | .blank => .ok ([], [])
  | .const value => .ok ([], [.const value])
  | .var name => .ok ([], [.var name])
  | .wrap inner => .ok ([⟨inner, entry.upright⟩], [])
  | .foreign object => .error (.unknownOperand .unfolding object)
  | .node operation left right =>
    if operation.id = focus.id then
      .ok ([⟨left, entry.upright⟩, ⟨right, entry.upright⟩], [])
    else
      match inverse with
      | none => .ok ([], [.node operation left right])
      | some i =>
        if operation.id = i.operation.id then do
          let turned ← i.transform.apply (if entry.upright then right else left)
          return ([⟨if entry.upright then left else right, entry.upright⟩,
            ⟨turned, !entry.upright⟩], [])
        else .ok ([], [.node operation left right])

/-- Open the trees on a stack, popping at most as many entries as given, and put
their terms behind those that were found before.  There is no outcome while
entries are left. -/
def openLoop
    (focus : Operation)
    (inverse : Option Inverse) :
    (pops : Nat) -> (stack : List Pending) -> (terms : List Expr) ->
      Option (Result (List Expr))
  | _, [], terms => some (.ok terms)
  | 0, _ :: _, _ => none
  | pops + 1, entry :: rest, terms =>
    match entry.openRoot focus inverse with
    | .error failure => some (.error failure)
    | .ok (opened, found) =>
      openLoop focus inverse pops (opened ++ rest) (terms ++ found)

namespace Pending

variable {focus : Operation} {inverse : Option Inverse}

/-- After some pops the entry is replaced by the terms of its tree, or the loop
has ended with the failure that opening the tree meets. -/
def EndsIn
    (focus : Operation)
    (inverse : Option Inverse)
    (pops : Nat)
    (entry : Pending) : Prop :=
  ∀ more rest terms,
    openLoop focus inverse (pops + more) (entry :: rest) terms =
    match openChain focus inverse entry.upright entry.tree with
    | .ok found => openLoop focus inverse more rest (terms ++ found)
    | .error failure => some (.error failure)

/-- The entry is replaced after a bounded number of pops. -/
def EndsWithin
    (focus : Operation)
    (inverse : Option Inverse)
    (bound : Nat)
    (entry : Pending) : Prop :=
  ∃ pops ≤ bound, entry.EndsIn focus inverse pops

theorem EndsWithin.mono
    {bound bound' : Nat}
    {entry : Pending}
    (ends : entry.EndsWithin focus inverse bound)
    (more : bound ≤ bound') :
    entry.EndsWithin focus inverse bound' := by
  obtain ⟨pops, within, endsIn⟩ := ends
  exact ⟨pops, Nat.le_trans within more, endsIn⟩

/-! ## One entry -/

/-- An entry that is a term takes one step. -/
theorem endsWithin_of_terms
    {entry : Pending}
    {found : List Expr}
    (rootOpened : entry.openRoot focus inverse = .ok ([], found))
    (opened : openChain focus inverse entry.upright entry.tree = .ok found) :
    entry.EndsWithin focus inverse 1 := by
  refine ⟨1, Nat.le_refl 1, fun more rest terms => ?_⟩
  rw [opened, Nat.add_comm, openLoop, rootOpened]
  rfl

/-- So does one that cannot be opened. -/
theorem endsWithin_of_failure
    {entry : Pending}
    {failure : Error}
    (rootFailed : entry.openRoot focus inverse = .error failure)
    (failed : openChain focus inverse entry.upright entry.tree =
      .error failure) :
    entry.EndsWithin focus inverse 1 := by
  refine ⟨1, Nat.le_refl 1, fun more rest terms => ?_⟩
  rw [failed, Nat.add_comm, openLoop, rootFailed]

theorem endsWithin_const
    (value : Number)
    (upright : Bool) :
    EndsWithin focus inverse 1 ⟨.const value, upright⟩ :=
  endsWithin_of_terms rfl (openChain_const value)

/-- An entry that is replaced by two entries takes one pop more than both. -/
theorem endsWithin_of_pair
    {entry first second : Pending}
    (rootOpened : entry.openRoot focus inverse = .ok ([first, second], []))
    (opened : openChain focus inverse entry.upright entry.tree = (do
      let before ← openChain focus inverse first.upright first.tree
      let behind ← openChain focus inverse second.upright second.tree
      return before ++ behind))
    {bound bound' : Nat}
    (firstEnds : first.EndsWithin focus inverse bound)
    (secondEnds : second.EndsWithin focus inverse bound') :
    entry.EndsWithin focus inverse (1 + bound + bound') := by
  obtain ⟨pops, within, firstEndsIn⟩ := firstEnds
  obtain ⟨pops', within', secondEndsIn⟩ := secondEnds
  refine ⟨1 + pops + pops', by omega, fun more rest terms => ?_⟩
  have count : 1 + pops + pops' + more = (pops + (pops' + more)) + 1 := by omega
  rw [count, openLoop, rootOpened, opened]
  dsimp only
  rw [List.cons_append, List.singleton_append, List.append_nil, firstEndsIn]
  cases openChain focus inverse first.upright first.tree with
  | error failure => rfl
  | ok before =>
    dsimp only
    rw [secondEndsIn]
    cases openChain focus inverse second.upright second.tree with
    | error failure => rfl
    | ok behind =>
      simp only [Result.ok_bind, Result.pure_eq_ok, List.append_assoc]

theorem endsWithin_wrap
    {inner : Expr}
    {upright : Bool}
    {bound : Nat}
    (ends : EndsWithin focus inverse bound ⟨inner, upright⟩) :
    EndsWithin focus inverse (1 + bound) ⟨.wrap inner, upright⟩ := by
  obtain ⟨pops, within, endsIn⟩ := ends
  refine ⟨1 + pops, by omega, fun more rest terms => ?_⟩
  have count : 1 + pops + more = (pops + more) + 1 := by omega
  rw [count, openLoop, openChain_wrap]
  have popped := endsIn more rest terms
  simpa [openRoot] using popped

section Nodes

variable {operation : Operation} {left right : Expr} {upright : Bool}
  {bound bound' : Nat}

/-- A grouping takes one step more than its operands. -/
theorem endsWithin_focus
    (same : operation.id = focus.id)
    (leftEnds : EndsWithin focus inverse bound ⟨left, upright⟩)
    (rightEnds : EndsWithin focus inverse bound' ⟨right, upright⟩) :
    EndsWithin focus inverse (1 + bound + bound')
      ⟨.node operation left right, upright⟩ :=
  endsWithin_of_pair (by simp [openRoot, same]) (openChain_focus same) leftEnds
    rightEnds

/-- The transform of an operand may fail.  Then so does opening the tree, at
this pop. -/
theorem endsWithin_inverse
    {i : Inverse}
    (different : operation.id ≠ focus.id)
    (same : operation.id = i.operation.id)
    (keptEnds : EndsWithin focus (some i) bound
      ⟨if upright then left else right, upright⟩)
    (turnedEnds : ∀ turned,
      i.transform.apply (if upright then right else left) = .ok turned ->
      EndsWithin focus (some i) bound' ⟨turned, !upright⟩) :
    EndsWithin focus (some i) (1 + bound + bound')
      ⟨.node operation left right, upright⟩ := by
  cases applied : i.transform.apply (if upright then right else left) with
  | ok turned =>
    refine endsWithin_of_pair ?_ (openChain_inverse different same applied)
      keptEnds (turnedEnds turned applied)
    simp [openRoot, if_neg different, if_pos same, applied]
  | error failure =>
    have rootFailed :
        openRoot focus (some i) ⟨.node operation left right, upright⟩ =
        .error failure := by
      simp [openRoot, if_neg different, if_pos same, applied]
    have failed := openChain_inverse_failed different same applied
    exact (endsWithin_of_failure rootFailed failed).mono (by omega)

theorem endsWithin_other
    (different : operation.id ≠ focus.id)
    (noInverse : ∀ i, inverse = some i -> operation.id ≠ i.operation.id) :
    EndsWithin focus inverse 1 ⟨.node operation left right, upright⟩ := by
  refine endsWithin_of_terms ?_ (openChain_other different noInverse)
  cases inverse with
  | none => simp [openRoot, different]
  | some i => simp [openRoot, different, noInverse i rfl]

end Nodes

/-! ## Transformed operands -/

theorem endsWithin_of_isConst
    {e : Expr}
    (isConst : e.isConst = true)
    (upright : Bool) :
    EndsWithin focus inverse 1 ⟨e, upright⟩ := by
  cases e with
  | const value => exact endsWithin_const value upright
  | _ => cases isConst

theorem isConst_of_applied
    {transform : Transform}
    {e t : Expr}
    (isConst : e.isConst = true)
    (applied : transform.apply e = .ok t) :
    t.isConst = true := by
  rcases Transform.apply_cases applied with
    ⟨-, constant⟩ | rfl | ⟨notConst, -⟩ | ⟨notConst, -⟩
  · exact constant
  · exact isConst
  · rw [isConst] at notConst
    cases notConst
  · rw [isConst] at notConst
    cases notConst

/-- A node that a transform puts over an operand and a constant.  In the view in
which the constant is turned over, the operand is opened next.  In the other
view it is the operand that is turned over, by the same transform: the node
comes back in the first view. -/
theorem endsWithin_of_constant_turned
    {i : Inverse}
    {operation : Operation}
    {left right : Expr}
    {bound : Nat}
    (view : Bool)
    (constant : (if view then right else left).isConst = true)
    (applied : i.transform.apply (if view then left else right) =
      .ok (.node operation left right))
    (ends : ∀ upright,
      EndsWithin focus (some i) bound ⟨if view then left else right, upright⟩)
    (upright : Bool) :
    EndsWithin focus (some i) (bound + 4)
      ⟨.node operation left right, upright⟩ := by
  by_cases isFocus : operation.id = focus.id
  · have constantEnds :
        EndsWithin focus (some i) 1 ⟨if view then right else left, upright⟩ :=
      endsWithin_of_isConst constant upright
    cases view with
    | true =>
      exact (endsWithin_focus isFocus (ends upright) constantEnds).mono
        (by omega)
    | false =>
      exact (endsWithin_focus isFocus constantEnds (ends upright)).mono
        (by omega)
  by_cases isInverse : operation.id = i.operation.id
  · have inView : EndsWithin focus (some i) (1 + bound + 1)
        ⟨.node operation left right, view⟩ :=
      endsWithin_inverse isFocus isInverse (ends view)
        fun turned turnedApplied =>
        endsWithin_of_isConst (isConst_of_applied constant turnedApplied) _
    by_cases same : upright = view
    · rw [same]
      exact inView.mono (by omega)
    · obtain rfl : upright = !view := by
        cases upright <;> cases view <;> simp_all
      have keptConstant : (if !view then left else right).isConst = true := by
        cases view <;> exact constant
      have keptEnds :
          EndsWithin focus (some i) 1 ⟨if !view then left else right, !view⟩ :=
        endsWithin_of_isConst keptConstant _
      refine (endsWithin_inverse isFocus isInverse keptEnds
        fun turned turnedApplied => ?_).mono
        (show 1 + 1 + (1 + bound + 1) ≤ bound + 4 by omega)
      have again :
          i.transform.apply (if view then left else right) = .ok turned := by
        cases view <;> exact turnedApplied
      rw [applied] at again
      cases again
      rw [Bool.not_not]
      exact inView
  · refine (endsWithin_other isFocus ?_).mono (by omega)
    rintro _ ⟨⟩
    exact isInverse

/-- A transformed entry takes at most four steps more. -/
theorem endsWithin_transformed
    {i : Inverse}
    {e t : Expr}
    {bound : Nat}
    (applied : i.transform.apply e = .ok t)
    (ends : ∀ upright, EndsWithin focus (some i) bound ⟨e, upright⟩)
    (upright : Bool) :
    EndsWithin focus (some i) (bound + 4) ⟨t, upright⟩ := by
  rcases Transform.apply_cases applied with
    ⟨-, isConst⟩ | rfl | ⟨-, -, rfl⟩ | ⟨-, -, rfl⟩
  · exact (endsWithin_of_isConst isConst upright).mono (by omega)
  · exact (ends upright).mono (by omega)
  · exact endsWithin_of_constant_turned false rfl applied ends upright
  · exact endsWithin_of_constant_turned true rfl applied ends upright

/-! ## All entries -/

/-- Every entry is replaced after a number of pops that is linear in the weight
of its tree. -/
theorem endsWithin_weight
    (focus : Operation)
    (inverse : Option Inverse)
    (e : Expr)
    (upright : Bool) :
    EndsWithin focus inverse (5 * e.weight) ⟨e, upright⟩ := by
  induction e generalizing upright with
  | blank =>
    exact (endsWithin_of_terms rfl openChain_blank).mono (by simp [Expr.weight])
  | const value =>
    exact (endsWithin_const value upright).mono (by simp [Expr.weight])
  | var name =>
    exact (endsWithin_of_terms rfl (openChain_var name)).mono
      (by simp [Expr.weight])
  | foreign object =>
    exact (endsWithin_of_failure rfl (openChain_foreign object)).mono
      (by simp [Expr.weight])
  | wrap inner inductive_step =>
    exact (endsWithin_wrap (inductive_step upright)).mono
      (by simp only [Expr.weight]; omega)
  | node operation left right leftStep rightStep =>
    by_cases isFocus : operation.id = focus.id
    · exact (endsWithin_focus isFocus (leftStep upright)
        (rightStep upright)).mono (by simp only [Expr.weight]; omega)
    by_cases isInverse : ∃ i, inverse = some i ∧ operation.id = i.operation.id
    · obtain ⟨i, rfl, same⟩ := isInverse
      cases upright with
      | true =>
        exact (endsWithin_inverse isFocus same (leftStep true)
          fun turned applied =>
          endsWithin_transformed applied rightStep _).mono
            (by simp only [Expr.weight]; omega)
      | false =>
        exact (endsWithin_inverse isFocus same (rightStep false)
          fun turned applied =>
          endsWithin_transformed applied leftStep _).mono
            (by simp only [Expr.weight]; omega)
    · refine (endsWithin_other isFocus fun i present same => ?_).mono
        (by simp only [Expr.weight]; omega)
      exact isInverse ⟨i, present, same⟩

end Pending

/-- Opening a chain with a stack always ends.  Whatever the registry, which
operation is the inverse of the focus in it and which of the two transforms
belongs to it, the stack is empty after a number of pops that is linear in the
size of the tree, unless the loop has ended with a failure before.  Either way
the outcome is that of `chainTerms`. -/
theorem openLoop_ends
    (registry : Registry)
    (focus : Operation)
    (commutative : focus.isCommutative = true)
    (e : Expr)
    (memory : Memory) :
    openLoop focus (registry.inverse? focus) (5 * e.weight) [⟨e, true⟩] [] =
      some ((chainTerms registry focus e).outcome memory).1 := by
  have opened : ((chainTerms registry focus e).outcome memory).1 =
      openChain focus (registry.inverse? focus) true e := by
    unfold chainTerms
    simp only [commutative, if_true]
    cases registry.inverse? focus <;> rfl
  obtain ⟨pops, within, endsIn⟩ :=
    Pending.endsWithin_weight focus (registry.inverse? focus) e true
  have run := endsIn (5 * e.weight - pops) [] []
  rw [Nat.add_sub_cancel' within] at run
  rw [run, opened]
  cases openChain focus (registry.inverse? focus) true e with
  | ok found => cases 5 * e.weight - pops <;> rfl
  | error failure => rfl

/-- With the product as the inverse of the sum, `x * (y * z)` is opened through
the nodes `-1 * (y * z)` that negation builds, which are inverse nodes again. -/
theorem openLoop_ends_productAsInverse :
    ∃ registry, Registry.standard.addInverse .sum .product .negate =
      .ok registry ∧
      Operation.sum.isCommutative = true ∧
      openLoop .sum (registry.inverse? .sum)
          (5 * Expr.weight
            (.node .product (.var "x") (.node .product (.var "y") (.var "z"))))
          [⟨.node .product (.var "x") (.node .product (.var "y") (.var "z")),
            true⟩] [] =
        some ((chainTerms registry .sum
          (.node .product (.var "x")
            (.node .product (.var "y") (.var "z")))).outcome .empty).1 :=
  ⟨_, rfl, rfl, openLoop_ends _ .sum rfl _ .empty⟩

end Symbolic
