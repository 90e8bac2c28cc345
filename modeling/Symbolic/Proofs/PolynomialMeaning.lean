import Symbolic.Proofs.PolynomialPass

/-!
# Simplification preserves the meaning of polynomials

With exact searches, every result that a context remembers for a polynomial is a
polynomial with the same value.  This holds of half-rewritten results, of final
ones and of the trees that are filed under themselves to break cycles, under
every assignment; so a simplification that returns has preserved the value of
its tree, whatever the context was used for before.
-/

namespace Symbolic

/-- A remembered polynomial has the value of its source. -/
def Remembered.KeepsValue
    (assignment : String -> Int)
    (_ : Fingerprint)
    (entry : Remembered) : Prop :=
  IsPolynomial False entry.result ∧
    entry.result.integerValue assignment = entry.source.integerValue assignment

/-- A pass over `source` has come to a polynomial with its value.  Only compound
trees call for another pass. -/
structure Pass.Preserves
    (assignment : String -> Int)
    (source : Expr)
    (pass : Pass) : Prop where
  polynomial : IsPolynomial False pass.result
  value : pass.result.integerValue assignment = source.integerValue assignment
  compound : pass.isChanged = true -> pass.result.isCompound = true

namespace IsPolynomial

theorem exists_node
    {e : Expr}
    (polynomial : IsPolynomial False e)
    (isCompound : e.isCompound = true) :
    ∃ operation left right, e = .node operation left right := by
  cases e with
  | node operation left right => exact ⟨operation, left, right, rfl⟩
  | wrap inner => cases polynomial
  | _ => simp [Expr.isCompound] at isCompound

variable {assignment : String -> Int} {settings : Settings}
  (standard : settings.registry = .standard) {recursion : Recursion}
  (recursive :
    Engine.Recursive (Remembered.KeepsValue assignment) (IsPolynomial True)
    (SimplifiesTo assignment) recursion)

include recursive

theorem refine_keeps
    {e : Expr}
    (polynomial : IsPolynomial False e) :
    (Pass.refine recursion e).Keeps
      (Cache.Holds (Remembered.KeepsValue assignment)) fun result =>
      IsPolynomial False result ∧
        result.integerValue assignment = e.integerValue assignment := by
  unfold Pass.refine
  split
  · next operation left right =>
    obtain ⟨leftPolynomial, rightPolynomial⟩ := polynomial.operands
    refine Work.Keeps.bind (recursive left leftPolynomial.mono)
      fun left' leftSimplified => ?_
    refine Work.Keeps.bind (recursive right rightPolynomial.mono)
      fun right' rightSimplified => ?_
    apply Work.Keeps.pure
    exact polynomial.mono.regroup polynomial.isDifference_eq_false
      leftSimplified rightSimplified
  · exact Work.Keeps.pure ⟨polynomial, rfl⟩

include standard

/-- The end of a pass: `.node operation left right` is what the pass over
`source` has come to. -/
theorem finish_keeps
    {source : Expr}
    {key : Fingerprint}
    {operation : Operation}
    {left right : Expr}
    (polynomial : IsPolynomial True (.node operation left right))
    (noDifference : (Expr.node operation left right).isDifference = false)
    (sameValue : (Expr.node operation left right).integerValue assignment =
      source.integerValue assignment) :
    (Pass.finish settings recursion key source operation left right).Keeps
      (Cache.Holds (Remembered.KeepsValue assignment))
        (Pass.Preserves assignment source) := by
  obtain ⟨leftPolynomial, rightPolynomial⟩ := polynomial.operands
  unfold Pass.finish
  refine Work.Keeps.bind (recursive left leftPolynomial)
    fun left' leftSimplified => ?_
  refine Work.Keeps.bind (recursive right rightPolynomial)
    fun right' rightSimplified => ?_
  obtain ⟨grouped, groupedValue⟩ :=
    polynomial.regroup noDifference leftSimplified rightSimplified
  rw [sameValue] at groupedValue
  split
  · next areConstants =>
    refine Work.Keeps.bind (Work.Keeps.lift fun _ evaluated => evaluated)
      fun value evaluated => ?_
    obtain ⟨valuePolynomial, valueValue⟩ :=
      grouped.evaluate areConstants evaluated
    apply Work.Keeps.pure
    exact ⟨valuePolynomial, valueValue.trans groupedValue, by simp [Pass.final]⟩
  · have remembered : Remembered.KeepsValue assignment key
        ⟨source, .node operation left' right'⟩ := ⟨grouped, groupedValue⟩
    refine Work.Keeps.bind (Work.Keeps.remember remembered false) fun _ _ => ?_
    refine Work.Keeps.bind (Work.Keeps.lift fun _ applied => applied)
      fun ruled applied => ?_
    rw [standard] at applied
    obtain ⟨ruledPolynomial, ruledValue⟩ := Rules.apply_keeps grouped applied
    refine Work.Keeps.bind (refine_keeps recursive ruledPolynomial) ?_
    rintro result ⟨resultPolynomial, resultValue⟩
    have sourceValue := (resultValue.trans ruledValue).trans groupedValue
    split
    · next isCompound =>
      refine Work.Keeps.bind (Work.Keeps.lift fun _ hashed => hashed)
        fun _ _ => ?_
      exact Work.Keeps.pure ⟨resultPolynomial, sourceValue, fun _ => isCompound⟩
    · exact Work.Keeps.pure ⟨resultPolynomial, sourceValue,
        by simp [Pass.final]⟩

/-- A pass goes on with the outcome of a reduction. -/
theorem afterReduction_keeps
    {source : Expr}
    (key : Fingerprint)
    (e : Expr)
    (reduced : IsPolynomial True e ∧ e.isDifference = false ∧
      e.integerValue assignment = source.integerValue assignment) :
    (Pass.afterReduction settings recursion key source e).Keeps
      (Cache.Holds (Remembered.KeepsValue assignment))
        (Pass.Preserves assignment source) := by
  obtain ⟨polynomial, noDifference, sameValue⟩ := reduced
  unfold Pass.afterReduction
  split
  · exact finish_keeps standard recursive polynomial noDifference sameValue
  · cases polynomial
  · refine Work.Keeps.map (Work.Keeps.mono (recursive e polynomial) ?_)
    intro result simplified
    exact ⟨simplified.polynomial, simplified.value.trans sameValue,
      by simp [Pass.final]⟩

/-- A pass over a polynomial. -/
theorem run_keeps
    {operation : Operation}
    {left right : Expr}
    (polynomial : IsPolynomial True (.node operation left right)) :
    (Pass.run settings recursion (.node operation left right)).Keeps
      (Cache.Holds (Remembered.KeepsValue assignment))
      (Pass.Preserves assignment (.node operation left right)) := by
  cases polynomial with
  | sum leftPolynomial rightPolynomial =>
    refine Pass.run_keeps_of_chain .sum ?_ rfl ?_
      (reduceChain_sum_keeps standard recursive
      (.sum leftPolynomial rightPolynomial))
        (afterReduction_keeps standard recursive)
    · rw [standard]
      rfl
    · rw [standard]
      rfl
  | difference allowed leftPolynomial rightPolynomial flat =>
    refine Pass.run_keeps_of_chain .sum ?_ rfl ?_
      (reduceChain_sum_keeps standard recursive
      (.difference allowed leftPolynomial rightPolynomial flat))
        (afterReduction_keeps standard recursive)
    · rw [standard]
      rfl
    · rw [standard]
      rfl
  | product leftPolynomial rightPolynomial =>
    refine Pass.run_keeps_of_chain .product ?_ rfl ?_
      (reduceChain_product_keeps standard recursive
      (.product leftPolynomial rightPolynomial))
        (afterReduction_keeps standard recursive)
    · rw [standard]
      rfl
    · rw [standard]
      rfl
  | power basePolynomial positive =>
    have notChain :
        (settings.registry.focusOf .power).isCommutative = false := by
      rw [standard]
      rfl
    unfold Pass.run
    refine Work.Keeps.bind (Work.Keeps.lift fun _ hashed => hashed)
      fun key _ => ?_
    rw [notChain]
    refine Work.Keeps.bind (Work.Keeps.pure rfl) ?_
    rintro _ rfl
    exact finish_keeps standard recursive
      (.power basePolynomial positive) rfl rfl

omit recursive in
/-- With exact searches, simplification is sound on polynomials. -/
theorem engineSound
    (exactSearch : settings.reusesCollisions = false) :
    Engine.Sound settings (Remembered.KeepsValue assignment) (IsPolynomial True)
      (SimplifiesTo assignment) where
  leaf := fun e polynomial isLeaf => SimplifiesTo.leaf polynomial isLeaf
  wrap := by
    rintro inner ⟨⟩
  recalls := by
    intro e key entry polynomial isCompound _ keepsValue found
    have equal : entry.source.equal e = .ok true := by
      simpa [exactSearch] using found
    have sameValue := Reading.integers_respects assignment entry.source e equal
    refine ⟨keepsValue.1, keepsValue.2.trans sameValue, ?_⟩
    intro isConst
    cases e <;> simp [Expr.isConst, Expr.isCompound] at isConst isCompound
  remembers := fun e key result _ _ _ simplified =>
    ⟨simplified.polynomial, simplified.value⟩
  trans := fun e e' result => SimplifiesTo.trans
  pass := by
    intro recursion recursive operation left right polynomial
    refine Work.Keeps.mono (run_keeps standard recursive polynomial)
      fun pass preserves => ?_
    refine ⟨⟨preserves.polynomial, preserves.value, by simp [Expr.isConst]⟩, ?_⟩
    intro isChanged
    refine ⟨preserves.polynomial.mono,
      SimplifiesTo.refl preserves.polynomial, ?_⟩
    exact preserves.polynomial.exists_node (preserves.compound isChanged)

end IsPolynomial

/-- In every context over the standard registry that calls on polynomials have
led to with exact searches, a simplification that returns gives a polynomial
without differences that has the value of its tree under every assignment. -/
theorem Context.integerValue_simplify
    {settings : Settings}
    (standard : settings.registry = .standard)
    (exactSearch : settings.reusesCollisions = false)
    {context : Context}
    (reached : context.Reached settings (IsPolynomial True))
    {e result : Expr}
    (polynomial : IsPolynomial True e)
    (returned : (context.run (context.simplify e)).1 = .ok result) :
    IsPolynomial False result ∧
      ∀ assignment, result.integerValue assignment =
        e.integerValue assignment := by
  have simplified (assignment : String -> Int) :
      SimplifiesTo assignment e result :=
    (IsPolynomial.engineSound standard exactSearch).answers_of_reached reached
      polynomial returned
  refine ⟨(simplified fun _ => 0).polynomial, ?_⟩
  intro assignment
  exact (simplified assignment).value

/-- The standard registry and limits, with exact searches. -/
def Settings.exact : Settings :=
  ⟨.standard, .standard, false⟩

/-- A context in which `x + x` was simplified. -/
def Context.afterDoubling : Context :=
  ((ofSettings .exact).run
    ((ofSettings .exact).simplify (.node .sum (.var "x") (.var "x")))).2.1

/-- After `x + x` was simplified in a context, `x - (y - x)` becomes
`2*x + (-1)*y`. -/
theorem Context.integerValue_simplify_nestedDifference :
    IsPolynomial False (.node .sum (.node .product (.int 2) (.var "x"))
        (.node .product (.int (-1)) (.var "y"))) ∧
      ∀ assignment,
        (Expr.node .sum (.node .product (.int 2) (.var "x"))
          (.node .product (.int (-1)) (.var "y"))).integerValue assignment =
        (Expr.node .difference (.var "x")
          (.node .difference (.var "y") (.var "x"))).integerValue
            assignment := by
  have reached : Context.afterDoubling.Reached .exact (IsPolynomial True) :=
    .call .fresh (.sum (.var "x") (.var "x"))
  have returned : (Context.afterDoubling.run (Context.afterDoubling.simplify
      (.node .difference (.var "x")
        (.node .difference (.var "y") (.var "x"))))).1 =
        .ok (.node .sum (.node .product (.int 2) (.var "x"))
          (.node .product (.int (-1)) (.var "y"))) := by
    cbv
  refine Context.integerValue_simplify rfl rfl reached ?_ returned
  exact .difference trivial (.var "x")
    (.difference trivial (.var "y") (.var "x") rfl) rfl

end Symbolic
