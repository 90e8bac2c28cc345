import Symbolic.Proofs.BlankOperands
import Symbolic.Proofs.ConstantTrees
import Symbolic.Proofs.FingerprintDistance

/-!
# Simplifying a result again

The last pass over a tree is one that does not change its fingerprint.  If the
tree has not changed either, then it is its own result from then on.  But a pass
may also come to another tree with the same fingerprint, and passes for the last
one although a further pass would go on from there.  For trees that are
recomputed without memory this is the only obstacle: a result that is simplified
again stays what it is, or some other tree has the same result and, up to zeros
at the end, the fingerprint of that result.

Leaves are never simplified any further, and trees of constants become leaves.
-/

namespace Symbolic

section Recomputed

variable {settings : Settings} (standard : settings.registry = .standard)
  {fuel : Nat}

include standard

/-- Of a pass without memory that comes to a node, the fingerprints of both
trees tell whether it calls for another one. -/
theorem Pass.isChanged_of_recomputed
    {operation : Operation}
    {left right : Expr}
    (isStandard : (Expr.node operation left right).IsStandard)
    {pass : Pass}
    (ran : Pass.recomputed settings (recompute settings fuel)
      (.node operation left right) =
      .ok pass)
    (isCompound : pass.result.isCompound = true) :
    pass.isChanged = true ↔
      pass.result.tokens.distance (Expr.node operation left right).tokens ≠
        0 := by
  have keeps : (run settings (fun e => liftM (recompute settings fuel e))
      (.node operation left right)).Keeps (fun _ => True) fun pass =>
        pass.result.isCompound = true -> (pass.isChanged = true ↔
          pass.result.tokens.distance (Expr.node operation left right).tokens ≠
            0) := by
    rw [run_node]
    refine .bind (.lift fun _ hashed => hashed) fun key hashed => ?_
    obtain rfl := Expr.eq_tokens_of_fingerprint hashed
    refine .bind (.lift fun _ goesThrough => goesThrough)
      fun isChain goesThrough => ?_
    cases isChain with
    | false => exact finish_keeps_isChanged settings _ _ _ operation left right
    | true =>
      rw [standard] at goesThrough ⊢
      obtain ⟨-, promoted, inverse, unit, chain, -⟩ | ⟨⟨⟩, -⟩ :=
        goesThroughChain_cases isStandard.isOver.1 goesThrough
      have closed := TreeClass.standard.toChainClass
      refine .bind (closed.reduceChain_keeps chain (fun _ => True)
        (fun _ => trivial)
        (fun _ _ _ _ => trivial) standard
          (fun e eStandard => .lift fun r answered =>
          ⟨(cleanResult_of_recompute standard eStandard answered).1, trivial⟩)
        fun terms opened term member =>
          ⟨(closed.forall_terms isStandard terms opened term member).1,
            trivial⟩)
        fun reduced isReduced => ?_
      have plain : reduced.IsPlain := by
        rcases isReduced with ⟨reducedStandard, -⟩ | ⟨rfl, -⟩
        · exact reducedStandard.plain
        · trivial
      cases reduced with
      | node combined left' right' =>
        exact finish_keeps_isChanged settings _ _ _ combined _ _
      | wrap inner => exact plain.elim
      | foreign object => exact plain.elim
      | _ =>
        rw [afterReduction_leaf rfl]
        refine .bind (.lift fun _ answered => answered) fun r answered =>
          .pure ?_
        rw [eq_of_recompute_leaf rfl answered]
        rintro ⟨⟩
  exact (keeps .empty trivial).2 pass ran isCompound

omit standard in
theorem recomputes_leaf
    {e : Expr}
    (isStandard : e.IsStandard)
    (isLeaf : e.isCompound = false) :
    Recomputes settings e e := by
  refine ⟨1, ?_⟩
  cases e with
  | node operation left right => cases isLeaf
  | wrap inner => cases isLeaf
  | foreign object => exact isStandard.plain.elim
  | _ => rfl

/-- The answer of a tree is its own answer, unless another tree with that answer
has its fingerprint. -/
theorem recomputes_itself_or_alike
    {e r : Expr}
    (isStandard : e.IsStandard)
    (recomputed : recompute settings fuel e = .ok r) :
    Recomputes settings r r ∨ ∃ other, other.IsStandard ∧ other ≠ r ∧
      other.tokens.SameUpToZeros r.tokens ∧ Recomputes settings other r := by
  induction fuel generalizing e r with
  | zero => cases recomputed
  | succ fuel inductive_step =>
    cases e with
    | node operation left right =>
      obtain ⟨pass, ran, later⟩ := recompute_node_eq_ok.1 recomputed
      have isClean := Pass.isClean_of_recomputed standard
        (fun e r eStandard => cleanResult_of_recompute standard eStandard)
          isStandard ran
      split at later
      · exact inductive_step isClean.1 later
      · next isLast =>
        subst later
        by_cases unchanged : pass.result = .node operation left right
        · rw [unchanged] at recomputed ⊢
          exact .inl ⟨fuel + 1, recomputed⟩
        · cases isCompound : pass.result.isCompound with
          | false => exact .inl (recomputes_leaf isClean.1 isCompound)
          | true =>
            have changed :=
              Pass.isChanged_of_recomputed standard isStandard ran isCompound
            rw [changed, not_not, Fingerprint.distance_comm,
              Fingerprint.distance_eq_zero_iff] at isLast
            exact .inr ⟨_, isStandard, Ne.symm unchanged, isLast, fuel + 1,
              recomputed⟩
    | wrap inner => exact isStandard.plain.elim
    | foreign object => exact isStandard.plain.elim
    | _ =>
      obtain rfl := eq_of_recompute_leaf rfl recomputed
      exact .inl (recomputes_leaf isStandard rfl)

end Recomputed

/-- When results stay what they are.  A leaf that a tree was simplified to is
not simplified any further, and all trees of constants are simplified to leaves.
Of other trees consider those that can be recomputed, in a run without
obstacles.  Their results are simplified to themselves, unless there is another
tree with the same result and, up to zeros at the end, the fingerprint of the
result: on that tree a pass that changes it passes for the last one. -/
theorem simplified_again
    {settings : Settings}
    (standard : settings.registry = .standard)
    {tree result : Expr}
    (isOver : tree.Over Operation.arithmetic)
    (returned : simplified settings tree = .ok result) :
    (tree.hasOnlyConstants = true -> simplified settings result = .ok result) ∧
    (tree.IsPlain -> result.isCompound = false ->
      simplified settings result = .ok result) ∧
    ∀ r, tree.IsPlain -> Recomputes settings tree r ->
      ¬Obstructed settings ((simplify settings tree).outcome .empty) ->
      Yields settings result result ∨ ∃ other,
        other.IsStandard ∧ other ≠ result ∧
        other.tokens.SameUpToZeros result.tokens ∧
          Yields settings other result := by
  refine ⟨fun constants => ?_, fun plain isLeaf => ?_,
    fun r plain recomputes clear => ?_⟩
  · obtain ⟨registry, limits, reusesCollisions⟩ := settings
    subst standard
    exact simplified_again_of_constants limits reusesCollisions tree result
      isOver constants returned
  · obtain ⟨registry, limits, reusesCollisions⟩ := settings
    subst standard
    have resultPlain :=
      (simplified_endsOrdinarily Registry.supports_standard plain).returned
      returned
    exact simplified_leaf returned isLeaf resultPlain.foreign?_eq_none
  · have isStandard : tree.IsStandard := ⟨plain, isOver⟩
    have answered :=
      (yields_of_recomputes standard isStandard recomputes).resolve_left clear
    rw [returned] at answered
    cases answered
    obtain ⟨fuel, recomputed⟩ := recomputes
    have resultStandard :=
      (cleanResult_of_recompute standard isStandard recomputed).1
    refine (recomputes_itself_or_alike standard isStandard recomputed).imp
      (yields_of_recomputes standard resultStandard) ?_
    rintro ⟨other, otherStandard, different, alike, answered⟩
    exact ⟨other, otherStandard, different, alike,
      yields_of_recomputes standard otherStandard answered⟩

/-- The result `2*x^2` of `x*x + x*x` stays what it is, unless it shares its
fingerprint with another tree of that result. -/
theorem simplified_again_squares :
    let square : Expr := .node .product (.var "x") (.var "x")
    let result : Expr :=
      .node .product (.int 2) (.node .power (.var "x") (.int 2))
    let exact : Settings := ⟨.standard, .standard, false⟩
    simplified exact (.node .sum square square) = .ok result ∧
      (Yields exact result result ∨ ∃ other, other.IsStandard ∧ other ≠ result ∧
        other.tokens.SameUpToZeros result.tokens ∧
          Yields exact other result) := by
  intro square result exact
  have returned : simplified exact (.node .sum square square) = .ok result := by
    cbv
  refine ⟨returned,
    (simplified_again rfl ?_ returned).2.2 result ?_ ⟨6, by cbv⟩ ?_⟩
  · simp [square, Expr.Over, Operation.arithmetic]
  · simp [square, Expr.IsPlain]
  · rintro (⟨failure, failed, -⟩ | ⟨⟨⟩, -⟩)
    rw [← simplified, returned] at failed
    cases failed

/-- The name of the variable `x` and the integer 120 have one token.  So a pass
that turns `x + 120` into `120 + x` does not change the fingerprint of
`(x + 120) * (120 + x)`, and the square is only found when the result is
simplified again. -/
theorem simplified_again_of_collision :
    simplified .standard (.node .product (.node .sum (.var "x") (.int 120))
        (.node .sum (.int 120) (.var "x"))) =
      .ok (.node .product (.node .sum (.int 120) (.var "x"))
        (.node .sum (.int 120) (.var "x"))) ∧
    simplified .standard (.node .product (.node .sum (.int 120) (.var "x"))
        (.node .sum (.int 120) (.var "x"))) =
      .ok (.node .power (.node .sum (.int 120) (.var "x")) (.int 2)) ∧
    Expr.equal (.node .power (.node .sum (.int 120) (.var "x")) (.int 2))
        (.node .product (.node .sum (.int 120) (.var "x"))
          (.node .sum (.int 120) (.var "x"))) =
      .ok false := by
  refine ⟨?_, ?_, ?_⟩ <;> cbv

end Symbolic
