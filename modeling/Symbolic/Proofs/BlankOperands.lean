import Symbolic.Proofs.KnownRuns
import Symbolic.Proofs.RememberedAnswers

/-!
# Blanks as operands of a sum

A blank has no tokens and leaves no term when a chain is opened.  So the chain
of `t + Blank` is that of `t`, and the first pass over it comes to the tree that
a first pass over `t` comes to if `t` is a sum itself, and otherwise to what `t`
is simplified to.  With a normal form as the result nothing happens after that,
and the blank has not shown.

A blank that is subtracted is negated first.  The product of a blank with -1 is
a term, and as a product that skips its blank it is worth -1.
-/

namespace Symbolic

/-- The sum of a tree and a blank, on either side. -/
inductive Expr.AddsBlank (t : Expr) : Expr -> Prop where
  | after : AddsBlank t (.node .sum t .blank)
  | before : AddsBlank t (.node .sum .blank t)

/-- A blank leaves no term. -/
theorem openChain_of_addsBlank
    {t s : Expr}
    (addsBlank : t.AddsBlank s)
    (inverse : Option Inverse)
    (upright : Bool) :
    openChain .sum inverse upright s = openChain .sum inverse upright t := by
  cases addsBlank <;> rw [openChain_focus rfl, openChain_blank] <;>
    cases openChain .sum inverse upright t <;> simp

/-- Subtracted, a blank leaves a term: its product with -1. -/
theorem openChain_minus_blank
    {t : Expr}
    {terms : List Expr}
    (opened : openChain .sum (some .subtraction) true t = .ok terms) :
    openChain .sum (some .subtraction) true (.node .difference t .blank) =
      .ok (terms ++ [.node .product (.int (-1)) .blank]) := by
  have turned : openChain .sum (some .subtraction) false
      (.node .product (.int (-1)) .blank) =
      .ok [.node .product (.int (-1)) .blank] :=
    openChain_other (by decide) (by rintro _ ⟨⟩; decide)
  have applied :
      Inverse.subtraction.transform.apply (if true then Expr.blank else t) =
      .ok (.node .product (.int (-1)) .blank) := rfl
  have splits :
      openChain .sum (some .subtraction) true (.node .difference t .blank) = (do
      let first ← openChain .sum (some .subtraction) true t
      let second ← openChain .sum (some .subtraction) false
        (.node .product (.int (-1)) .blank)
      return first ++ second) :=
    openChain_inverse (by decide) rfl applied
  simp [splits, opened, turned]

namespace Pass

section Runs

variable {settings : Settings} (standard : settings.registry = .standard)
  {recursion : Recursion}

include standard

/-- A pass over a sum or difference reduces its chain and goes on with the
outcome. -/
theorem run_eq_of_sum
    {operation : Operation}
    (belongs : operation = .sum ∨ operation = .difference)
    {left right : Expr}
    (noForeign : (Expr.node operation left right).foreign? = none) :
    run settings recursion (.node operation left right) = (do
      let reduced ← reduceChain settings recursion .sum
        (.node operation left right)
      afterReduction settings recursion (Expr.node operation left right).tokens
        (.node operation left right) reduced) := by
  have isFocus : Registry.standard.focusOf operation = .sum := by
    rcases belongs with rfl | rfl <;> rfl
  have goesThrough :
      goesThroughChain .standard operation left right = .ok true := by
    rcases belongs with rfl | rfl <;> rfl
  rw [run_node, standard, goesThrough, isFocus,
    Expr.fingerprint_eq_ok _ noForeign]
  rfl

/-- The reduction of a chain does not see blanks. -/
theorem reduceChain_matches_of_addsBlank
    (recursive : ∀ e, Work.Matches id (recursion e) (recursion e))
    {t s : Expr}
    (addsBlank : t.AddsBlank s) :
    Work.Matches id (reduceChain settings recursion .sum t)
      (reduceChain settings recursion .sum s) := by
  rw [reduceChain_eq, reduceChain_eq, standard, chainTerms_sum, chainTerms_sum,
    openChain_of_addsBlank addsBlank]
  refine .bind (.lift fun _ returned => returned) fun terms => .bind (.note _ _)
    fun _ => ?_
  exact reduceTerms_related Work.matching rfl recursive .sum terms

omit standard in
/-- The end of a pass comes to the same tree, whatever it started from; only
whether it calls for another pass depends on that. -/
theorem finish_matches
    (recursive : ∀ e, Work.Matches id (recursion e) (recursion e))
    (key key' : Fingerprint)
    (source source' : Expr)
    (operation : Operation)
    (left right : Expr) :
    Work.Matches (fun pass => reaching key' pass.result)
      (finish settings recursion key source operation left right)
      (finish settings recursion key' source' operation left right) := by
  unfold finish
  refine .bind (recursive left) fun left' => .bind (recursive right)
    fun right' => ?_
  split
  · intro memory memory' pass returned
    obtain ⟨value, evaluated, returned⟩ := Work.outcome_bind_eq_ok.1 returned
    refine Work.outcome_bind_eq_ok.2 ⟨value, evaluated, ?_⟩
    cases returned
    have isConst := Operation.isConst_of_evaluate evaluated
    cases value with
    | const value => rfl
    | _ => cases isConst
  · refine .bind (.remember _ _ _ _ _ _ _) fun _ =>
      .bind (.lift fun _ applied => applied)
      fun ruled => .bind (refine_related Work.matching recursive ruled)
        fun result => ?_
    split
    · next isCompound =>
      intro memory memory' pass returned
      obtain ⟨resultKey, hashed, returned⟩ := Work.outcome_bind_eq_ok.1 returned
      refine Work.outcome_bind_eq_ok.2 ⟨resultKey, hashed, ?_⟩
      cases returned
      obtain rfl := Expr.eq_tokens_of_fingerprint hashed
      simp [reaching, isCompound]
    · next notCompound =>
      intro memory memory' pass returned
      cases returned
      simp [reaching, final, notCompound]

omit standard in
theorem afterReduction_leaf
    {e : Expr}
    (isLeaf : e.isCompound = false)
    (key : Fingerprint)
    (source : Expr) :
    afterReduction settings recursion key source e = (do
      let r ← recursion e
      return final r) := by
  cases e with
  | node operation left right => cases isLeaf
  | wrap inner => cases isLeaf
  | _ => rfl

omit standard in
/-- The same of what follows a reduction. -/
theorem afterReduction_matches
    (recursive : ∀ e, Work.Matches id (recursion e) (recursion e))
    (leaves : ∀ e memory r, e.isCompound = false ->
      ((recursion e).outcome memory).1 = .ok r ->
      r.isCompound = false)
    (key key' : Fingerprint)
    (source source' : Expr)
    {reduced : Expr}
    (plain : reduced.IsPlain) :
    Work.Matches (fun pass => reaching key' pass.result)
      (afterReduction settings recursion key source reduced)
      (afterReduction settings recursion key' source' reduced) := by
  cases reduced with
  | node operation left right =>
    exact finish_matches recursive key key' source source' operation left right
  | wrap inner => exact plain.elim
  | foreign object => exact plain.elim
  | _ =>
    rw [afterReduction_leaf rfl key source,
      afterReduction_leaf rfl key' source']
    intro memory memory' pass returned
    obtain ⟨r, answered, returned⟩ := Work.outcome_bind_eq_ok.1 returned
    refine Work.outcome_bind_eq_ok.2
      ⟨r, recursive _ memory memory' r answered, ?_⟩
    cases returned
    simp [reaching, final, leaves _ memory r rfl answered]

section Single

variable {invariant : Cache -> Prop}

omit standard in
theorem reduceTerms_nil (focus : Operation) :
    reduceTerms settings recursion focus [] = pure .blank := rfl

omit standard in
/-- The reduction of a single term comes to what the term is simplified to.  A
constant goes to the constants in the end, whether it was found there or not. -/
theorem reduceTerms_returns_single
    {focus : Operation}
    {t r : Expr}
    (simplified : Work.Returns invariant (recursion t) r)
    (again : Work.Returns invariant (recursion r) r) :
    Work.Returns invariant (reduceTerms settings recursion focus [t]) r := by
  have settles (constants : List Expr) (rest : Option Expr)
      (only : absorbConstant constants rest = ([r], none) ∨
        absorbConstant constants rest = ([], some r)) :
      Work.Returns invariant (assemble focus constants rest) r := by
    unfold assemble
    rcases only with absorbed | absorbed <;> rw [absorbed]
    · exact .next (.lift (focus.joinAll_singleton r)) (.pure rfl)
    · exact .pure rfl
  have absorbs : absorbConstant [] (some r) = ([r], none) ∨
      absorbConstant [] (some r) = ([], some r) := by
    cases r with
    | const value => exact .inl rfl
    | _ => exact .inr rfl
  unfold reduceTerms
  by_cases constant : t.hasOnlyConstants = true
  · cases isConst : r.isConst with
    | true =>
      have splits :
          Work.Returns invariant (splitConstants recursion [t]) ([r], []) := by
        rw [splitConstants, if_pos constant]
        refine .next simplified (.next (.pure rfl) ?_)
        simp only [isConst, if_true]
        exact .pure rfl
      exact .next splits (.next (.pure rfl) (settles [r] none (.inl rfl)))
    | false =>
      have splits :
          Work.Returns invariant (splitConstants recursion [t]) ([], [r]) := by
        rw [splitConstants, if_pos constant]
        refine .next simplified (.next (.pure rfl) ?_)
        simp only [isConst]
        exact .pure rfl
      exact .next splits
        (.next (residue_single again) (settles [] (some r) absorbs))
  · have splits :
        Work.Returns invariant (splitConstants recursion [t]) ([], [t]) := by
      rw [splitConstants, if_neg constant]
      exact .next (.pure rfl) (.pure rfl)
    exact .next splits
      (.next (residue_single simplified) (settles [] (some r) absorbs))

end Single

/-- The terms of a sum with a blank are reduced like those of the sum without
it. -/
theorem reduceChain_returns_of_addsBlank
    {invariant : Cache -> Prop}
    {t s r : Expr}
    (addsBlank : t.AddsBlank s)
    {terms : List Expr}
    (opened : openChain .sum (some .subtraction) true t = .ok terms)
    (reduces :
      Work.Returns invariant (reduceTerms settings recursion .sum terms) r) :
    Work.Returns invariant (reduceChain settings recursion .sum s) r := by
  rw [reduceChain_eq, standard, chainTerms_sum,
    openChain_of_addsBlank addsBlank, opened]
  exact .next (.lift rfl) (.next (.note _) reduces)

end Runs
end Pass

/-! ## Normal forms -/

/-- The tree and its operands stay what they are when they are recomputed, and
neither an evaluation nor a rule applies to its root. -/
structure Expr.IsNormal (settings : Settings) (e : Expr) : Prop where
  stays : Recomputes settings e e
  operands : ∀ operation left right, e = .node operation left right ->
    Recomputes settings left left ∧ Recomputes settings right right
  notEvaluated : ∀ operation left right, e = .node operation left right ->
    (left.isConst && right.isConst) = false
  notRuled : ∀ operation left right, e = .node operation left right ->
    Rules.apply settings.registry operation left right = .ok e

/-- With some fuel a normal form and its operands stay what they are. -/
theorem Expr.IsNormal.exists_fuel
    {settings : Settings}
    {e : Expr}
    (normal : e.IsNormal settings) :
    ∃ fuel, recompute settings fuel e = .ok e ∧
      ∀ operation left right, e = .node operation left right ->
        recompute settings fuel left = .ok left ∧
          recompute settings fuel right = .ok right := by
  obtain ⟨fuel, stays⟩ := normal.stays
  cases e with
  | node operation left right =>
    obtain ⟨⟨leftFuel, leftStays⟩, rightFuel, rightStays⟩ :=
      normal.operands _ _ _ rfl
    refine ⟨max fuel (max leftFuel rightFuel),
      recompute_mono (by omega) stays, ?_⟩
    rintro _ _ _ ⟨⟩
    exact ⟨recompute_mono (by omega) leftStays,
      recompute_mono (by omega) rightStays⟩
  | _ => exact ⟨fuel, stays, by rintro _ _ _ ⟨⟩⟩

section Normal

variable {settings : Settings} (standard : settings.registry = .standard)
  {fuel : Nat} {r : Expr}
  (rStandard : r.IsStandard) (normal : r.IsNormal settings)
  (stays : recompute settings fuel r = .ok r)
  (operandsStay : ∀ operation left right, r = .node operation left right ->
    recompute settings fuel left = .ok left ∧
      recompute settings fuel right = .ok right)

include rStandard normal stays operandsStay

/-- A pass that has come to a normal form ends with it. -/
theorem Pass.afterReduction_returns_of_normal
    (key : Fingerprint)
    (source : Expr) :
    Work.Returns (Cache.Holds fun _ _ => True)
      (afterReduction settings
        (fun e => liftM (recompute settings fuel e)) key source r)
      (reaching key r) := by
  cases r with
  | node operation left right =>
    obtain ⟨leftStays, rightStays⟩ := operandsStay _ _ _ rfl
    exact finish_returns (.lift leftStays) (.lift rightStays)
      (normal.notEvaluated _ _ _ rfl)
      trivial (normal.notRuled _ _ _ rfl)
        (refine_returns (.lift leftStays) (.lift rightStays))
      rStandard.foreign?_eq_none
  | wrap inner => exact rStandard.plain.elim
  | foreign object => exact rStandard.plain.elim
  | _ =>
    rw [afterReduction_leaf rfl]
    exact .next (.lift stays) (.pure rfl)

end Normal

/-! ## The first pass over a sum with a blank -/

theorem Expr.AddsBlank.isStandard
    {t s : Expr}
    (addsBlank : t.AddsBlank s)
    (standard : t.IsStandard) :
    s.IsStandard := by
  have blank : Expr.blank.IsStandard := ⟨trivial, trivial⟩
  cases addsBlank with
  | after => exact .node (by simp [Operation.arithmetic]) standard blank
  | before => exact .node (by simp [Operation.arithmetic]) blank standard

section AddsBlank

variable {settings : Settings} (standard : settings.registry = .standard)
  {t s : Expr}
  (tStandard : t.IsStandard) (addsBlank : t.AddsBlank s) {fuel : Nat}

include standard tStandard addsBlank

theorem Pass.run_of_addsBlank (recursion : Recursion) :
    run settings recursion s = (do
      let reduced ← reduceChain settings recursion .sum s
      afterReduction settings recursion s.tokens s reduced) := by
  have noForeign := (addsBlank.isStandard tStandard).foreign?_eq_none
  cases addsBlank <;> exact run_eq_of_sum standard (.inl rfl) noForeign

/-- If the tree is itself a sum or difference, its own first pass comes to the
same. -/
theorem Pass.recomputed_of_addsBlank
    {operation : Operation}
    (belongs : operation = .sum ∨ operation = .difference)
    {left right : Expr}
    (isNode : t = .node operation left right)
    {pass : Pass}
    (ran : Pass.recomputed settings (recompute settings fuel) t = .ok pass) :
    Pass.recomputed settings (recompute settings fuel) s =
      .ok (reaching s.tokens pass.result) := by
  have recursive (e : Expr) : Work.Matches id
      (liftM (recompute settings fuel e) : Work Expr)
        (liftM (recompute settings fuel e)) :=
    .lift fun _ returned => returned
  have leaves (e : Expr) (memory : Memory) (r : Expr)
      (isLeaf : e.isCompound = false)
      (answered : ((liftM (recompute settings fuel e) : Work Expr).outcome
        memory).1 = .ok r) :
      r.isCompound = false := by
    obtain rfl := eq_of_recompute_leaf isLeaf answered
    exact isLeaf
  have closed := TreeClass.standard.toChainClass
  have keeps : (reduceChain settings
      (fun e => liftM (recompute settings fuel e)) .sum t).Keeps
      (fun _ => True) fun reduced => reduced.IsStandard ∧ True ∨
        reduced = .blank ∧ _ :=
    closed.reduceChain_keeps .sum (fun _ => True) (fun _ => trivial)
      (fun _ _ _ _ => trivial)
      standard (fun e eStandard => .lift fun r answered =>
        ⟨(cleanResult_of_recompute standard eStandard answered).1, trivial⟩)
      fun terms opened term member =>
        ⟨(closed.forall_terms tStandard terms opened term member).1,
        trivial⟩
  have ranSum :
      run settings (fun e => liftM (recompute settings fuel e)) t = (do
      let reduced ← reduceChain settings
        (fun e => liftM (recompute settings fuel e)) .sum t
      afterReduction settings
        (fun e => liftM (recompute settings fuel e)) t.tokens t reduced) := by
    have noForeign := tStandard.foreign?_eq_none
    subst isNode
    exact run_eq_of_sum standard belongs noForeign
  rw [recomputed, ranSum] at ran
  obtain ⟨reduced, reduces, finishes⟩ := Work.outcome_bind_eq_ok.1 ran
  have plain : reduced.IsPlain := by
    rcases (keeps .empty trivial).2 reduced reduces with
      ⟨isStandard, -⟩ | ⟨rfl, -⟩
    · exact isStandard.plain
    · trivial
  rw [recomputed, run_of_addsBlank standard tStandard addsBlank]
  exact Work.outcome_bind_eq_ok.2 ⟨reduced,
    reduceChain_matches_of_addsBlank standard recursive addsBlank _ _ reduced
      reduces,
    afterReduction_matches recursive leaves _ _ _ _ plain _ _ pass finishes⟩

/-- If the terms of the tree are reduced to a normal form, the first pass comes
to it. -/
theorem Pass.recomputed_of_addsBlank_of_normal
    {terms : List Expr}
    (opened : openChain .sum (some .subtraction) true t = .ok terms)
    {r : Expr}
    (reduces : Work.Returns (Cache.Holds fun _ _ => True)
      (reduceTerms settings
        (fun e => liftM (recompute settings fuel e)) .sum terms) r)
    (rStandard : r.IsStandard)
    (normal : r.IsNormal settings)
    (stays : recompute settings fuel r = .ok r)
    (operandsStay : ∀ operation left right, r = .node operation left right ->
      recompute settings fuel left = .ok left ∧
        recompute settings fuel right = .ok right) :
    Pass.recomputed settings (recompute settings fuel) s =
      .ok (reaching s.tokens r) := by
  have runs : Work.Returns (Cache.Holds fun _ _ => True)
      (run settings (fun e => liftM (recompute settings fuel e)) s)
        (reaching s.tokens r) := by
    rw [run_of_addsBlank standard tStandard addsBlank]
    exact .next (reduceChain_returns_of_addsBlank standard addsBlank opened
      reduces)
      (afterReduction_returns_of_normal rStandard normal stays operandsStay _ _)
  have holds : Memory.empty.cache.Holds fun _ _ => True := Cache.holds_nil _
  obtain ⟨_, returned, rfl⟩ := runs.exists_ok holds
  exact returned

omit standard tStandard in
/-- A first pass has come to a tree with the answer `r`.  Either this is the
answer of the sum with the blank, or the pass has not changed the
fingerprint. -/
theorem exists_answer_of_addsBlank
    {c r : Expr}
    (ran : Pass.recomputed settings (recompute settings fuel) s =
      .ok (Pass.reaching s.tokens c))
    (recomputed : recompute settings fuel c = .ok r) :
    ∃ answer, Recomputes settings s answer ∧
      (answer = r ∨ answer.tokens.distance s.tokens = 0 ∧
        Recomputes settings answer r) := by
  obtain ⟨operation, left, right, rfl⟩ : s.IsNode := by
    cases addsBlank <;> exact ⟨_, _, _, rfl⟩
  by_cases isChanged :
    (Pass.reaching (Expr.node operation left right).tokens c).isChanged = true
  · refine ⟨r, ⟨fuel + 1, recompute_node_eq_ok.2 ⟨_, ran, ?_⟩⟩, .inl rfl⟩
    rw [if_pos isChanged]
    exact recomputed
  · refine ⟨c, ⟨fuel + 1, recompute_node_eq_ok.2 ⟨_, ran, ?_⟩⟩, ?_⟩
    · rw [if_neg isChanged]
      rfl
    · cases isCompound : c.isCompound with
      | false => exact .inl (eq_of_recompute_leaf isCompound recomputed).symm
      | true =>
        exact .inr ⟨by simpa [Pass.reaching, isCompound] using isChanged, fuel,
          recomputed⟩

/-- Without memory, a sum with a blank has the answer of the tree beside the
blank, if that is a normal form, or a tree which has that answer and the
fingerprint of the sum.  The fuel is enough for the tree, for the normal form
and for its operands. -/
theorem recomputes_of_addsBlank
    {r : Expr}
    (recomputes : Recomputes settings t r)
    (normal : r.IsNormal settings) :
    ∃ answer, Recomputes settings s answer ∧
      (answer = r ∨ answer.tokens.distance s.tokens = 0 ∧
        Recomputes settings answer r) := by
  obtain ⟨fuel, recomputed⟩ := recomputes
  have rStandard := (cleanResult_of_recompute standard tStandard recomputed).1
  obtain ⟨normalFuel, stays, operandsStay⟩ := normal.exists_fuel
  have enough := recompute_mono (Nat.le_max_left fuel normalFuel) recomputed
  have staysEnough := recompute_mono (Nat.le_max_right fuel normalFuel) stays
  have operandsEnough (operation : Operation) (left right : Expr)
      (isNode : r = .node operation left right) :=
    (operandsStay operation left right isNode).imp
      (recompute_mono (Nat.le_max_right fuel normalFuel))
      (recompute_mono (Nat.le_max_right fuel normalFuel))
  have ofTerms {terms : List Expr}
      (opened : openChain .sum (some .subtraction) true t = .ok terms)
      (reduces :
        Work.Returns (Cache.Holds fun _ _ => True) (Pass.reduceTerms settings
        (fun e => liftM (recompute settings (max fuel normalFuel) e)) .sum
          terms) r) :=
    exists_answer_of_addsBlank addsBlank
      (Pass.recomputed_of_addsBlank_of_normal standard tStandard addsBlank
        opened reduces rStandard normal staysEnough operandsEnough) staysEnough
  have ofTerm (opened : openChain .sum (some .subtraction) true t = .ok [t]) :=
    ofTerms opened (Pass.reduceTerms_returns_single (.lift enough)
      (.lift staysEnough))
  cases t with
  | blank =>
    obtain rfl := eq_of_recompute_leaf rfl recomputed
    refine ofTerms openChain_blank ?_
    rw [Pass.reduceTerms_nil]
    exact .pure rfl
  | const value => exact ofTerm (openChain_const value)
  | var name => exact ofTerm (openChain_var name)
  | wrap inner => exact tStandard.plain.elim
  | foreign object => exact tStandard.plain.elim
  | node operation left right =>
    by_cases belongs : operation = .sum ∨ operation = .difference
    · obtain ⟨less, isLess, again, -⟩ := exists_least_fuel enough
      obtain ⟨pass, ran, later⟩ := recompute_node_eq_ok.1 again
      have ranEnough := Pass.recomputed_mono
        (fun _ _ => recompute_mono (Nat.le_of_lt isLess)) ran
      refine exists_answer_of_addsBlank addsBlank
        (Pass.recomputed_of_addsBlank standard tStandard addsBlank belongs rfl
          ranEnough) ?_
      split at later
      · exact recompute_mono (Nat.le_of_lt isLess) later
      · rw [later]
        exact staysEnough
    · refine ofTerm (openChain_other ?_ ?_)
      · intro same
        exact belongs (.inl (Operation.eq_of_id_eq tStandard.isOver.1
          (by simp [Operation.arithmetic]) same))
      · rintro _ ⟨⟩ same
        exact belongs (.inr (Operation.eq_of_id_eq tStandard.isOver.1
          (by simp [Operation.arithmetic]) same))

end AddsBlank

/-! ## Simplified sums with blanks -/

/-- Unless the run is obstructed, a tree is simplified to a certain result. -/
def Yields (settings : Settings) (e r : Expr) : Prop :=
  Obstructed settings ((simplify settings e).outcome .empty) ∨
    simplified settings e = .ok r

theorem yields_of_recomputes
    {settings : Settings}
    (standard : settings.registry = .standard)
    {e r : Expr}
    (isStandard : e.IsStandard)
    (recomputes : Recomputes settings e r) :
    Yields settings e r := by
  obtain ⟨fuel, recomputed⟩ := recomputes
  exact simplified_of_recompute standard isStandard recomputed

/-- A blank that is added to a tree does not show in the result, as far as the
result is a normal form that is found without memory: unless a limit is exceeded
or a collision is reused, the sum is simplified to the same result, or to a tree
with that result which has the fingerprint of the sum, so that no further pass
is made.  A blank that is subtracted does show.  It leaves the term `-1*Blank`,
which is simplified to -1. -/
theorem simplified_of_added_blank
    (settings : Settings)
    (standard : settings.registry = .standard)
    (t r : Expr)
    (isStandard : t.IsStandard)
    (recomputes : Recomputes settings t r)
    (normal : r.IsNormal settings) :
    Yields settings t r ∧
    (∀ s, t.AddsBlank s -> ∃ answer, Yields settings s answer ∧
      (answer = r ∨ answer.tokens.distance s.tokens = 0 ∧
        Yields settings answer r)) ∧
    (∀ terms, openChain .sum (some .subtraction) true t = .ok terms ->
      openChain .sum (some .subtraction) true (.node .difference t .blank) =
        .ok (terms ++ [.node .product (.int (-1)) .blank])) ∧
    Yields settings (.node .product (.int (-1)) .blank) (.int (-1)) ∧
    ∀ n : Int, Yields settings (.node .difference (.int n) .blank)
      (.int (n - 1)) := by
  have blank : Expr.blank.IsStandard := ⟨trivial, trivial⟩
  have int (n : Int) : (Expr.int n).IsStandard := ⟨trivial, trivial⟩
  refine ⟨yields_of_recomputes standard isStandard recomputes, ?_, ?_, ?_, ?_⟩
  · intro s addsBlank
    obtain ⟨answer, answered, either⟩ :=
      recomputes_of_addsBlank standard isStandard addsBlank recomputes normal
    have sStandard := addsBlank.isStandard isStandard
    refine ⟨answer, yields_of_recomputes standard sStandard answered,
      either.imp_right ?_⟩
    rintro ⟨sameTokens, again⟩
    refine ⟨sameTokens, yields_of_recomputes standard ?_ again⟩
    obtain ⟨fuel, recomputed⟩ := answered
    exact (cleanResult_of_recompute standard sStandard recomputed).1
  · exact fun terms => openChain_minus_blank
  · refine yields_of_recomputes standard
      (.node (by simp [Operation.arithmetic]) (int _) blank) ⟨3, ?_⟩
    obtain ⟨registry, limits, reusesCollisions⟩ := settings
    subst standard
    cbv
  · intro n
    refine yields_of_recomputes standard
      (.node (by simp [Operation.arithmetic]) (int n) blank) ⟨3, ?_⟩
    obtain ⟨registry, limits, reusesCollisions⟩ := settings
    subst standard
    cbv

/-- `x*x + x*x` has the normal form `2*x^2`, so `(x*x + x*x) + Blank` has it
too. -/
theorem simplified_of_added_blank_squares :
    let square : Expr := .node .product (.var "x") (.var "x")
    let twice : Expr :=
      .node .product (.int 2) (.node .power (.var "x") (.int 2))
    Yields .standard (.node .sum square square) twice ∧
      ∃ answer, Yields .standard (.node .sum (.node .sum square square) .blank)
        answer ∧
        (answer = twice ∨
          answer.tokens.distance
            (Expr.node .sum (.node .sum square square) .blank).tokens = 0 ∧
            Yields .standard answer twice) := by
  have normal :
      (Expr.node .product (.int 2) (.node .power (.var "x") (.int 2))).IsNormal
      .standard := by
    refine ⟨⟨4, by cbv⟩, ?_, ?_, ?_⟩ <;> rintro _ _ _ ⟨⟩
    · exact ⟨⟨1, by cbv⟩, 3, by cbv⟩
    · rfl
    · cbv
  intro square twice
  have result :=
    simplified_of_added_blank .standard rfl (.node .sum square square) twice
    ⟨by simp [square, Expr.IsPlain],
      by simp [square, Expr.Over, Operation.arithmetic]⟩
    ⟨6, by cbv⟩ normal
  exact ⟨result.1, result.2.1 _ .after⟩

/-- `x - Blank` is simplified to `-1 + x`, not to `x`. -/
theorem simplified_of_subtracted_blank :
    simplified .standard (.var "x") = .ok (.var "x") ∧
      simplified .standard (.node .difference (.var "x") .blank) =
        .ok (.node .sum (.int (-1)) (.var "x")) ∧
      (Expr.node .sum (.int (-1)) (.var "x")).equal (.var "x") = .ok false := by
  refine ⟨?_, ?_, ?_⟩ <;> cbv

end Symbolic
