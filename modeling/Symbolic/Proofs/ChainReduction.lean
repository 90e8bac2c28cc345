import Symbolic.Proofs.CollectValue
import Symbolic.Simplification.Pass

/-!
# Reducing a chain

A pass opens the chain of a node, evaluates the terms that are constant,
collects the others and joins what is left.  A `Reduction` says what these steps
preserve, an amount of the terms of the chain, and which trees they lead to.
From it follows what the reduced chain is.
-/

namespace Symbolic

/-- What reducing a chain preserves.  `term` are the trees that may be terms of
the chain, `settled` those that may be its outcome, and `total` is the amount of
a list of terms. -/
structure Reduction
    {M : Type}
    (invariant : Cache -> Prop)
    (settings : Settings)
    (recursion : Recursion)
    (focus : Operation)
    (term settled : Expr -> Prop)
    (total : List Expr -> M) : Prop where
  /-- The amount of a list is determined by the amounts of its parts. -/
  appends : ∀ first first' second second', total first = total first' ->
    total second = total second' ->
      total (first ++ second) = total (first' ++ second')
  /-- The order of terms does not matter. -/
  reorders : ∀ terms terms', terms.Perm terms' -> total terms = total terms'
  /-- Constants may be an outcome. -/
  constants : ∀ e, e.isConst = true -> settled e
  /-- Two terms may be put under the focus. -/
  groups : ∀ left right, term left -> term right ->
    term (.node focus left right) ∧ settled (.node focus left right) ∧
      total [.node focus left right] = total [left, right]
  /-- A term may be simplified. -/
  simplifies : ∀ e, term e -> (recursion e).Keeps invariant fun result =>
    term result ∧ settled result ∧ total [result] = total [e]
  /-- Terms may be joined. -/
  joins : ∀ terms joined, (∀ e ∈ terms, term e) ->
    focus.joinAll terms = .ok joined ->
    term joined ∧ (terms = [joined] ∨ settled joined) ∧
      total [joined] = total terms
  /-- Two or more terms may be collected. -/
  collects : ∀ terms, 2 ≤ terms.length -> (∀ e ∈ terms, term e) ->
    (collect settings recursion focus terms).Keeps invariant fun collected =>
      collected ≠ [] ∧ (∀ e ∈ collected, term e) ∧
        (∀ e, collected = [e] -> settled e) ∧
        total collected = total terms

namespace Reduction

variable {M : Type} {invariant : Cache -> Prop} {settings : Settings}
  {recursion : Recursion}
  {focus : Operation} {term settled : Expr -> Prop} {total : List Expr -> M}
  (reduction : Reduction invariant settings recursion focus term settled total)

include reduction

theorem total_cons
    {e e' : Expr}
    {rest rest' : List Expr}
    (same : total [e] = total [e'])
    (sameRest : total rest = total rest') :
    total (e :: rest) = total (e' :: rest') :=
  reduction.appends [e] [e'] rest rest' same sameRest

/-- The evaluated constants and the other terms have the amount of all terms
together.  A term may be put in front of the constants or in front of the
others. -/
theorem splitConstants_keeps
    (terms : List Expr)
    (allTerms : ∀ e ∈ terms, term e) :
    (Pass.splitConstants recursion terms).Keeps invariant fun split =>
      (∀ e ∈ split.1, term e ∧ e.isConst = true) ∧ (∀ e ∈ split.2, term e) ∧
        (split.1 ++ split.2 = [] -> terms = []) ∧
          total (split.1 ++ split.2) = total terms := by
  induction terms with
  | nil => exact Work.Keeps.pure ⟨by simp, by simp, fun _ => rfl, rfl⟩
  | cons first rest inductive_step =>
    have firstTerm := allTerms first List.mem_cons_self
    have restStep := inductive_step fun e member =>
      allTerms e (List.mem_cons_of_mem first member)
    have inFront (constants others : List Expr)
        (same : total (constants ++ others) = total rest)
        (e : Expr) (sameFirst : total [e] = total [first]) :
        total (constants ++ e :: others) = total (first :: rest) := by
      rw [reduction.reorders _ _ List.perm_middle]
      exact reduction.total_cons sameFirst same
    rw [Pass.splitConstants]
    split
    · refine Work.Keeps.bind (reduction.simplifies first firstTerm)
        fun value simplified => ?_
      obtain ⟨valueTerm, -, sameFirst⟩ := simplified
      refine Work.Keeps.bind restStep ?_
      rintro ⟨constants, others⟩ ⟨allConstants, allOthers, -, same⟩
      dsimp only at allConstants allOthers same ⊢
      split
      · next isConst =>
        refine Work.Keeps.pure ⟨?_, allOthers, by simp, ?_⟩
        · exact List.forall_mem_cons.2 ⟨⟨valueTerm, isConst⟩, allConstants⟩
        · exact reduction.total_cons sameFirst same
      · refine Work.Keeps.pure ⟨allConstants, ?_, by simp,
          inFront constants others same _ sameFirst⟩
        exact List.forall_mem_cons.2 ⟨valueTerm, allOthers⟩
    · refine Work.Keeps.bind restStep ?_
      rintro ⟨constants, others⟩ ⟨allConstants, allOthers, -, same⟩
      refine Work.Keeps.pure ⟨allConstants, ?_, by simp,
        inFront constants others same _ rfl⟩
      exact List.forall_mem_cons.2 ⟨firstTerm, allOthers⟩

/-- The tree that is left of the other terms has their amount. -/
theorem residue_keeps
    (others : List Expr)
    (allTerms : ∀ e ∈ others, term e) :
    (Pass.residue settings recursion focus others).Keeps invariant fun rest =>
      (rest = none -> others = []) ∧
        ∀ e, rest = some e -> term e ∧ settled e ∧
          total [e] = total others := by
  match others with
  | [] => exact Work.Keeps.pure ⟨fun _ => rfl, by simp⟩
  | [e] =>
    refine Work.Keeps.bind
      (reduction.simplifies e (allTerms e List.mem_cons_self))
      fun result simplified => Work.Keeps.pure ⟨by simp, ?_⟩
    rintro _ ⟨⟩
    exact simplified
  | first :: second :: rest =>
    refine Work.Keeps.bind (reduction.collects _ (by simp) allTerms) ?_
    rintro collected ⟨notEmpty, allCollected, lone, same⟩
    have isEmpty : collected.isEmpty = false := by simpa using notEmpty
    simp only [isEmpty, Bool.false_eq_true, if_false]
    refine Work.Keeps.bind (Work.Keeps.lift fun _ joined => joined)
      fun joined isJoined => ?_
    obtain ⟨joinedTerm, isSettled, sameJoined⟩ :=
      reduction.joins collected joined allCollected isJoined
    refine Work.Keeps.pure ⟨by simp, ?_⟩
    rintro _ ⟨⟩
    refine ⟨joinedTerm, ?_, sameJoined.trans same⟩
    exact isSettled.elim (lone joined) id

/-- A constant rest goes to the constants; the amount of both stays. -/
theorem absorbConstant_keeps
    {evaluated others constants : List Expr}
    {rest rest' : Option Expr}
    (absorbed : Pass.absorbConstant evaluated rest = (constants, rest'))
    (allEvaluated : ∀ e ∈ evaluated, term e ∧ e.isConst = true)
    (nothing : rest = none -> others = [])
    (something : ∀ e, rest = some e ->
      term e ∧ settled e ∧ total [e] = total others) :
    (∀ e ∈ constants, term e ∧ e.isConst = true) ∧
      (constants = [] -> rest' = none -> evaluated ++ others = []) ∧
      (∀ e, rest' = some e -> term e ∧ settled e) ∧
      total (constants ++ rest'.toList) = total (evaluated ++ others) := by
  unfold Pass.absorbConstant at absorbed
  split at absorbed
  · next value =>
    cases absorbed
    obtain ⟨valueTerm, -, sameRest⟩ := something _ rfl
    refine ⟨?_, by simp, by simp, ?_⟩
    · intro e member
      rcases List.mem_append.1 member with inEvaluated | isValue
      · exact allEvaluated e inEvaluated
      · obtain rfl := List.mem_singleton.1 isValue
        exact ⟨valueTerm, rfl⟩
    · rw [Option.toList_none, List.append_nil]
      exact reduction.appends _ _ _ _ rfl sameRest
  · cases absorbed
    refine ⟨allEvaluated, ?_, ?_, ?_⟩
    · rintro rfl rfl
      rw [nothing rfl, List.append_nil]
    · intro e isRest
      obtain ⟨restTerm, restSettled, -⟩ := something e isRest
      exact ⟨restTerm, restSettled⟩
    · apply reduction.appends _ _ _ _ rfl
      cases rest with
      | none => rw [nothing rfl, Option.toList_none]
      | some e => exact (something e rfl).2.2

/-- Reducing a chain gives one tree with the amount of its terms, or a blank if
there are none. -/
theorem reduceChain_keeps_or_blank
    {source : Expr}
    {opened : List Expr -> Prop}
    (opens : (chainTerms settings.registry focus source).Keeps invariant
      fun terms =>
      opened terms ∧ ∀ e ∈ terms, term e) :
    (Pass.reduceChain settings recursion focus source).Keeps invariant
      fun result =>
      (∃ terms, opened terms ∧ term result ∧ settled result ∧
        total [result] = total terms) ∨
        (opened [] ∧ result = .blank) := by
  unfold Pass.reduceChain
  refine Work.Keeps.bind opens ?_
  rintro terms ⟨isOpened, allTerms⟩
  refine Work.Keeps.bind (Work.Keeps.note _) fun _ _ => ?_
  refine Work.Keeps.bind (reduction.splitConstants_keeps terms allTerms) ?_
  rintro ⟨evaluated, others⟩ ⟨allEvaluated, allOthers, empty, same⟩
  refine Work.Keeps.bind (reduction.residue_keeps others allOthers) ?_
  rintro rest ⟨nothing, something⟩
  obtain ⟨constants, rest', absorbed⟩ : ∃ constants rest',
      Pass.absorbConstant evaluated rest = (constants, rest') := ⟨_, _, rfl⟩
  obtain ⟨allConstants, present, restGood, sameAll⟩ :=
    reduction.absorbConstant_keeps absorbed allEvaluated nothing something
  rw [same] at sameAll
  simp only [absorbed]
  split
  · next noConstants =>
    obtain rfl := List.isEmpty_iff.1 noConstants
    cases rest' with
    | none =>
      obtain rfl := empty (present rfl rfl)
      exact Work.Keeps.pure (.inr ⟨isOpened, rfl⟩)
    | some e =>
      exact Work.Keeps.pure
        (.inl ⟨terms, isOpened, (restGood e rfl).1, (restGood e rfl).2,
          sameAll⟩)
  · refine Work.Keeps.bind (Work.Keeps.lift fun _ joined => joined)
      fun constant joined => ?_
    obtain ⟨constantTerm, lone, sameConstants⟩ :=
      reduction.joins constants constant
        (fun e member => (allConstants e member).1) joined
    cases rest' with
    | none =>
      rw [Option.toList_none, List.append_nil] at sameAll
      refine Work.Keeps.pure
        (.inl ⟨terms, isOpened, constantTerm, ?_, sameConstants.trans sameAll⟩)
      rcases lone with rfl | isSettled
      · exact reduction.constants constant
          (allConstants constant List.mem_cons_self).2
      · exact isSettled
    | some e =>
      obtain ⟨nodeTerm, nodeSettled, sameNode⟩ :=
        reduction.groups constant e constantTerm (restGood e rfl).1
      refine Work.Keeps.pure
        (.inl ⟨terms, isOpened, nodeTerm, nodeSettled, sameNode.trans ?_⟩)
      exact (reduction.appends [constant] constants [e] [e] sameConstants
        rfl).trans sameAll

/-- Reducing a chain that has terms gives one tree with the amount of the
chain. -/
theorem reduceChain_keeps
    {source : Expr}
    {amount : M}
    (opens : (chainTerms settings.registry focus source).Keeps invariant
      fun terms =>
      terms ≠ [] ∧ (∀ e ∈ terms, term e) ∧ total terms = amount) :
    (Pass.reduceChain settings recursion focus source).Keeps invariant
      fun result =>
      term result ∧ settled result ∧ total [result] = amount := by
  have opensTerms :
      (chainTerms settings.registry focus source).Keeps invariant fun terms =>
      (terms ≠ [] ∧ total terms = amount) ∧ ∀ e ∈ terms, term e :=
    Work.Keeps.mono opens fun terms ⟨notEmpty, allTerms, isAmount⟩ =>
      ⟨⟨notEmpty, isAmount⟩, allTerms⟩
  refine Work.Keeps.mono (reduction.reduceChain_keeps_or_blank opensTerms) ?_
  rintro result (⟨terms, ⟨-, rfl⟩, resultTerm, resultSettled,
    same⟩ | ⟨⟨notEmpty, -⟩, -⟩)
  · exact ⟨resultTerm, resultSettled, same⟩
  · exact absurd rfl notEmpty

end Reduction

/-! ## Chains of constants -/

section Constants

variable {invariant : Cache -> Prop} {settings : Settings}
  {recursion : Recursion} {answers : Expr -> Expr -> Prop}
  (constant : ∀ term value, answers term value -> value.isConst = true)

include constant

/-- Terms of constants whose values are found leave no other terms. -/
theorem Pass.splitConstants_keeps_of_constants
    (terms : List Expr)
    (found : ∀ term ∈ terms, term.hasOnlyConstants = true ∧
      (recursion term).Keeps invariant (answers term)) :
    (Pass.splitConstants recursion terms).Keeps invariant fun split =>
      List.Forall₂ answers terms split.1 ∧ split.2 = [] := by
  induction terms with
  | nil => exact Work.Keeps.pure ⟨.nil, rfl⟩
  | cons first rest inductive_step =>
    obtain ⟨⟨isConstant, firstFound⟩, restFound⟩ := List.forall_mem_cons.1 found
    rw [Pass.splitConstants, if_pos isConstant]
    refine Work.Keeps.bind firstFound fun value answered => ?_
    refine Work.Keeps.bind (inductive_step restFound) ?_
    rintro ⟨values, others⟩ ⟨allAnswered, noOthers⟩
    simp only [constant first value answered, if_true]
    exact Work.Keeps.pure ⟨.cons answered allAnswered, noOthers⟩

/-- A chain of constants is reduced to what the values of its terms are joined
to. -/
theorem Pass.reduceChain_keeps_of_constants
    {focus : Operation}
    {source : Expr}
    {settled : Expr -> Prop}
    (opens : (chainTerms settings.registry focus source).Keeps invariant
      fun terms =>
      terms ≠ [] ∧
      (∀ term ∈ terms, term.hasOnlyConstants = true ∧
        (recursion term).Keeps invariant (answers term)) ∧
      ∀ values joined, List.Forall₂ answers terms values ->
        focus.joinAll values = .ok joined ->
        settled joined) :
    (Pass.reduceChain settings recursion focus source).Keeps invariant
      settled := by
  unfold Pass.reduceChain
  refine Work.Keeps.bind opens ?_
  rintro terms ⟨notEmpty, found, joins⟩
  refine Work.Keeps.bind (Work.Keeps.note _) fun _ _ => ?_
  refine Work.Keeps.bind
    (Pass.splitConstants_keeps_of_constants constant terms found) ?_
  rintro ⟨values, others⟩ ⟨answered, rfl⟩
  refine Work.Keeps.bind (Work.Keeps.pure rfl) ?_
  rintro _ rfl
  have present : values.isEmpty = false := by
    cases answered with
    | nil => exact absurd rfl notEmpty
    | cons => rfl
  simp only [Pass.absorbConstant, present, Bool.false_eq_true, if_false]
  exact Work.Keeps.bind (Work.Keeps.lift fun joined =>
    joins values joined answered)
    fun _ isSettled => Work.Keeps.pure isSettled

end Constants

/-- What a pass does after the reduction of a chain. -/
def Pass.afterReduction
    (settings : Settings)
    (recursion : Recursion)
    (key : Fingerprint)
    (source : Expr) : Expr -> Work Pass
  | .node combined left right =>
    Pass.finish settings recursion key source combined left right
  | .wrap inner => Pass.final <$> recursion inner
  | e => Pass.final <$> recursion e

/-- Whether a pass over a node goes through its chain. -/
def Pass.goesThroughChain
    (registry : Registry)
    (operation : Operation)
    (left right : Expr) : Result Bool :=
  if (registry.focusOf operation).isCommutative then
    (!·) <$> isUnitFraction registry (registry.focusOf operation) operation
      left right
  else .ok false

/-- A pass over a node reduces its chain and goes on with the outcome, or
finishes the node as it is. -/
theorem Pass.run_node
    (settings : Settings)
    (recursion : Recursion)
    (operation : Operation)
    (left right : Expr) :
    Pass.run settings recursion (.node operation left right) = (do
      let key ← (Expr.node operation left right).fingerprint
      let isChain ← goesThroughChain settings.registry operation left right
      if isChain then do
        let reduced ←
          reduceChain settings recursion (settings.registry.focusOf operation)
            (.node operation left right)
        afterReduction settings recursion key (.node operation left right)
          reduced
      else
        finish settings recursion key (.node operation left right) operation
          left right) := by
  unfold Pass.run goesThroughChain
  by_cases commutative :
    (settings.registry.focusOf operation).isCommutative = true
  · simp only [commutative, if_true]
    cases isUnitFraction settings.registry (settings.registry.focusOf operation)
      operation left right <;> rfl
  · simp only [commutative]
    rfl

/-- A pass over a node of a chain reduces the chain and goes on with the
outcome. -/
theorem Pass.run_keeps_of_chain
    {invariant : Cache -> Prop}
    {settings : Settings}
    {recursion : Recursion}
    (focus : Operation)
    {operation : Operation}
    {left right : Expr}
    (isFocus : settings.registry.focusOf operation = focus)
    (commutative : focus.isCommutative = true)
    (noFraction : Pass.isUnitFraction settings.registry focus operation left
      right = .ok false)
    {reduced : Expr -> Prop}
    (reduces : (Pass.reduceChain settings recursion focus
      (.node operation left right)).Keeps invariant reduced)
    {post : Pass -> Prop}
    (continues : ∀ key e, reduced e ->
      (Pass.afterReduction settings recursion key (.node operation left right)
        e).Keeps invariant post) :
    (Pass.run settings recursion (.node operation left right)).Keeps invariant
      post := by
  rw [Pass.run_node]
  refine Work.Keeps.bind (Work.Keeps.lift fun _ hashed => hashed)
    fun key _ => ?_
  have goesThrough : Pass.goesThroughChain settings.registry operation left
      right = .ok true := by
    rw [Pass.goesThroughChain, isFocus, commutative, noFraction]
    rfl
  rw [goesThrough, isFocus]
  refine Work.Keeps.bind (Work.Keeps.lift fun _ returned => returned) ?_
  rintro _ ⟨⟩
  exact Work.Keeps.bind reduces (continues key)

end Symbolic
