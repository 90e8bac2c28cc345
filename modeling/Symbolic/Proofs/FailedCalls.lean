import Symbolic.Proofs.ContextMemory

/-!
# What failed simplifications leave behind

A simplification that fails keeps what it has remembered so far, also results of
nodes that were not finished, and a later call may recall them.  Only some
failures leave no trace: those that come before anything is remembered.
`Expr.IsRefused` says of a tree that this happens to it.  After any other
failure at least those trees are simplified as before that need no memory or
that had been answered already.
-/

namespace Symbolic

theorem Expr.fingerprint_eq_error
    {e : Expr}
    {object : Foreign}
    (found : e.foreign? = some object) :
    e.fingerprint = .error (.unknownOperand .fingerprinting object) := by
  simp only [fingerprint, found]

/-- A search does not find a result for the tree. -/
def Cache.IsUnanswered (settings : Settings) (cache : Cache) (e : Expr) :
    Prop :=
  ∀ result, cache.answer settings e.tokens e ≠ .ok (some result)

theorem Cache.isUnanswered_nil (settings : Settings) (e : Expr) :
    IsUnanswered settings [] e := by
  intro result answered
  simp [answer, firstEqual] at answered

/-- The terms of the chain that a pass over a node goes through, if it goes
through one. -/
def Pass.opened
    (registry : Registry)
    (operation : Operation)
    (left right : Expr) : Result (Option (List Expr)) := do
  if ← goesThroughChain registry operation left right then
    let focus := registry.focusOf operation
    return some (← openChain focus (registry.inverse? focus) true
      (.node operation left right))
  else return none

/-- A simplification of the tree fails before anything is remembered: it meets a
foreign object, or the chain of a node cannot be opened, or the first constant
term or operand of a node that is no leaf is refused. -/
inductive Expr.IsRefused (settings : Settings) (cache : Cache) :
    Expr -> Prop where
  | foreign (object : Foreign) : IsRefused settings cache (.foreign object)
  | wrap {inner : Expr} : inner.IsRefused settings cache -> IsRefused settings cache (.wrap inner)
  | unhashed {operation : Operation} {left right : Expr} {object : Foreign} :
    (Expr.node operation left right).foreign? = some object ->
      IsRefused settings cache (.node operation left right)
  | unopened {operation : Operation} {left right : Expr} {failure : Error} :
    cache.IsUnanswered settings (.node operation left right) ->
    Pass.opened settings.registry operation left right = .error failure ->
      IsRefused settings cache (.node operation left right)
  | constant {operation : Operation} {left right term : Expr} {before rest : List Expr} :
    cache.IsUnanswered settings (.node operation left right) ->
    Pass.opened settings.registry operation left right =
      .ok (some (before ++ term :: rest)) ->
    (∀ e ∈ before, e.hasOnlyConstants = true -> e.isCompound = false) ->
    term.hasOnlyConstants = true -> term.IsRefused settings cache ->
      IsRefused settings cache (.node operation left right)
  | left {operation : Operation} {left right : Expr} :
    cache.IsUnanswered settings (.node operation left right) ->
    Pass.opened settings.registry operation left right = .ok none ->
    left.IsRefused settings cache ->
      IsRefused settings cache (.node operation left right)
  | right {operation : Operation} {left right : Expr} :
    cache.IsUnanswered settings (.node operation left right) ->
    Pass.opened settings.registry operation left right = .ok none ->
    left.isCompound = false -> right.IsRefused settings cache ->
      IsRefused settings cache (.node operation left right)

open Work

/-- A computation fails and leaves the given cache alone. -/
abbrev Work.FailsIn {α : Type} (cache : Cache) (work : Work α) : Prop :=
  work.Keeps (· = cache) fun _ => False

/-- Nothing follows a failure. -/
theorem Work.FailsIn.bind
    {α β : Type}
    {cache : Cache}
    {work : Work α}
    (fails : work.FailsIn cache)
    (next : α -> Work β) :
    (work >>= next).FailsIn cache :=
  Keeps.bind fails fun _ impossible => impossible.elim

section Pass

variable {settings : Settings} {recursion : Recursion} {cache : Cache}

theorem chainTerms_keeps
    {registry : Registry}
    {focus : Operation}
    (commutative : focus.isCommutative = true)
    (e : Expr) :
    (chainTerms registry focus e).Keeps (· = cache) fun terms =>
      openChain focus (registry.inverse? focus) true e = .ok terms := by
  unfold chainTerms
  rw [if_pos commutative]
  dsimp only
  split
  · exact Keeps.bind (Keeps.note _) fun _ _ => Keeps.lift fun _ opened => opened
  · exact Keeps.lift fun _ opened => opened

/-- A refused constant term stops the evaluation of the constants. -/
theorem Pass.splitConstants_fails
    {before rest : List Expr}
    {term : Expr}
    (leaves : ∀ e, e.isCompound = false ->
      (recursion e).Keeps (· = cache) fun _ => True)
    (constants : ∀ e ∈ before, e.hasOnlyConstants = true ->
      e.isCompound = false)
    (isConstant : term.hasOnlyConstants = true)
    (termFails : (recursion term).FailsIn cache) :
    (splitConstants recursion (before ++ term :: rest)).FailsIn cache := by
  induction before with
  | nil =>
    rw [List.nil_append, splitConstants, if_pos isConstant]
    exact termFails.bind _
  | cons first others inductive_step =>
    obtain ⟨firstConstant, othersConstant⟩ := List.forall_mem_cons.1 constants
    have othersFail := inductive_step othersConstant
    rw [List.cons_append, splitConstants]
    split
    · next onlyConstants =>
      exact Keeps.bind (leaves first (firstConstant onlyConstants)) fun _ _ =>
        othersFail.bind _
    · exact othersFail.bind _

/-- A pass fails if its chain cannot be opened, or else its constants or
operands are refused. -/
theorem Pass.run_fails
    {operation : Operation}
    {left right : Expr}
    (chainFails : ∀ terms, opened settings.registry operation left right =
      .ok (some terms) ->
      (splitConstants recursion terms).FailsIn cache)
    (operandsFail : opened settings.registry operation left right = .ok none ->
      ∃ middle, (recursion left).Keeps (· = cache) middle ∧
        ∀ left', middle left' -> (recursion right).FailsIn cache) :
    (run settings recursion (.node operation left right)).FailsIn cache := by
  rw [run_node]
  refine Keeps.bind (Keeps.lift fun _ hashed => hashed) fun key _ => ?_
  refine Keeps.bind (Keeps.lift fun _ goesThrough => goesThrough)
    fun isChain goesThrough => ?_
  unfold opened at chainFails operandsFail
  rw [goesThrough] at chainFails operandsFail
  cases isChain with
  | true =>
    have commutative :
        (settings.registry.focusOf operation).isCommutative = true := by
      by_contra notCommutative
      rw [goesThroughChain, if_neg notCommutative] at goesThrough
      cases goesThrough
    refine FailsIn.bind ?_ _
    unfold reduceChain
    refine Keeps.bind (chainTerms_keeps commutative _) fun terms isOpened => ?_
    refine Keeps.bind (Keeps.note _) fun _ _ =>
      FailsIn.bind (chainFails terms ?_) _
    simp only [Result.ok_bind, if_true, isOpened]
    rfl
  | false =>
    obtain ⟨middle, leftKeeps, rightFails⟩ := operandsFail rfl
    unfold finish
    exact Keeps.bind leftKeeps fun left' isMiddle =>
      (rightFails left' isMiddle).bind _

end Pass

/-- A leaf leaves the memory alone. -/
theorem simplifyAt_keeps_of_leaf
    (settings : Settings)
    {cache : Cache}
    (levels : Nat)
    {e : Expr}
    (isLeaf : e.isCompound = false) :
    (simplifyAt settings levels e).Keeps (· = cache) fun _ => True := by
  cases levels with
  | zero => exact Keeps.throw _ _
  | succ levels =>
    cases e with
    | foreign object => exact Keeps.throw _ _
    | node operation left right => cases isLeaf
    | wrap inner => cases isLeaf
    | _ => exact Keeps.pure trivial

/-- A search for an unanswered tree finds nothing, or fails. -/
theorem Work.retrieve_keeps
    {settings : Settings}
    {cache : Cache}
    {e : Expr}
    (unanswered : cache.IsUnanswered settings e) :
    (retrieve settings e.tokens e).Keeps (· = cache) fun found =>
      found = none := by
  rintro memory rfl
  obtain ⟨answered, unchanged⟩ := outcome_retrieve settings e.tokens e memory
  rw [answered]
  refine ⟨unchanged, fun found isFound => ?_⟩
  cases found with
  | none => rfl
  | some result => exact absurd isFound (unanswered result)

/-- An unanswered node fails if its first pass does. -/
theorem simplifyNode_fails
    {settings : Settings}
    {recursion : Recursion}
    {cache : Cache}
    {e : Expr}
    (unanswered : cache.IsUnanswered settings e)
    (passFails : (Pass.run settings recursion e).FailsIn cache) :
    (simplifyNode settings recursion e).FailsIn cache := by
  unfold simplifyNode
  refine Keeps.bind (Keeps.lift fun _ hashed => hashed) fun key hashed => ?_
  obtain rfl := Expr.eq_tokens_of_fingerprint hashed
  refine Keeps.bind (retrieve_keeps unanswered) ?_
  rintro _ rfl
  refine FailsIn.bind ?_ _
  cases settings.limits.iterations with
  | zero => exact Keeps.throw _ _
  | succ passes =>
    rw [iterate]
    exact passFails.bind _

/-- A refused tree fails and leaves no trace, however many levels are left.
With no level left it fails as well. -/
theorem Expr.IsRefused.fails
    {settings : Settings}
    {cache : Cache}
    {e : Expr}
    (refused : e.IsRefused settings cache)
    (levels : Nat) :
    (simplifyAt settings levels e).FailsIn cache := by
  induction refused generalizing levels <;> cases levels
  case wrap.succ inner refused inductive_step levels =>
    exact inductive_step levels
  case unhashed.succ operation left right object found levels =>
    refine FailsIn.bind (Keeps.lift ?_) _
    rw [fingerprint_eq_error found]
    rintro _ ⟨⟩
  case unopened.succ operation left right failure unanswered failed levels =>
    refine simplifyNode_fails unanswered (Pass.run_fails ?_ ?_) <;>
      simp [failed]
  case constant.succ operation left right term before rest unanswered opened constants isConstant
      refused inductive_step levels =>
    refine simplifyNode_fails unanswered (Pass.run_fails ?_ ?_)
    · intro terms isOpened
      rw [opened] at isOpened
      cases isOpened
      exact Pass.splitConstants_fails
        (fun _ => simplifyAt_keeps_of_leaf settings levels)
        constants isConstant (inductive_step levels)
    · simp [opened]
  case left.succ operation left right unanswered opened refused inductive_step levels =>
    refine simplifyNode_fails unanswered (Pass.run_fails ?_ ?_)
    · simp [opened]
    · exact fun _ =>
        ⟨_, inductive_step levels, fun _ impossible => impossible.elim⟩
  case right.succ operation left right unanswered opened isLeaf refused inductive_step levels =>
    refine simplifyNode_fails unanswered (Pass.run_fails ?_ ?_)
    · simp [opened]
    · exact fun _ => ⟨_, simplifyAt_keeps_of_leaf settings levels isLeaf,
        fun _ _ => inductive_step levels⟩
  all_goals exact Keeps.throw _ _

theorem Cache.firstEqual_wrap (entries : List Remembered) (inner : Expr) :
    firstEqual entries (.wrap inner) = firstEqual entries inner := by
  induction entries with
  | nil => rfl
  | cons entry rest inductive_step =>
    rw [firstEqual, firstEqual, Expr.equal_wrap_right, inductive_step]

/-- The memory does not matter for leaves and foreign objects, and only the
answer does for a tree that has one. -/
theorem outcome_simplifyAt_congr
    {settings : Settings}
    {e : Expr}
    {memory memory' : Memory}
    (settled : e.unwrap.isCompound = false ∨ e.foreign? ≠ none ∨
      ∃ result, memory.cache.answer settings e.tokens e = .ok (some result) ∧
        memory'.cache.answer settings e.tokens e = .ok (some result))
    (levels : Nat) :
    ((simplifyAt settings levels e).outcome memory).1 =
      ((simplifyAt settings levels e).outcome memory').1 := by
  induction levels generalizing e with
  | zero => rfl
  | succ levels inductive_step =>
    cases e with
    | wrap inner =>
      simp only [Cache.answer, Cache.firstEqual_wrap] at settled
      exact inductive_step settled
    | node operation left right =>
      cases found : (Expr.node operation left right).foreign? with
      | some object =>
        simp only [simplifyAt, simplifyRoot, simplifyNode,
          Expr.fingerprint_eq_error found, outcome_bind, outcome_lift]
      | none =>
        obtain isLeaf | hasForeign | ⟨result, answered, answered'⟩ := settled
        · cases isLeaf
        · exact absurd found hasForeign
        · rw [simplifyAt, simplifyRoot,
            outcome_simplifyNode_of_answer _ found answered,
            outcome_simplifyNode_of_answer _ found answered']
    | _ => rfl

namespace Context

/-- A call for a refused tree fails, and afterwards every tree is simplified
with the same outcome as without that call; the refused one fails again.  Any
other call that fails can be noticed, but not from leaves, trees with foreign
objects, and trees that had been answered before. -/
theorem simplify_after_failure
    (context : Context)
    (e : Expr) :
    let later := context.after (.simplify e)
    (e.IsRefused context.settings context.cache ->
      (∃ failure, (context.run (context.simplify e)).1 = .error failure) ∧
      ∀ e', (later.run (later.simplify e')).1 =
        (context.run (context.simplify e')).1) ∧
    ∀ e', (e'.unwrap.isCompound = false ∨ e'.foreign? ≠ none ∨
        ∃ result, context.cache.answer context.settings e'.tokens e' =
          .ok (some result)) ->
      (later.run (later.simplify e')).1 =
        (context.run (context.simplify e')).1 := by
  intro later
  have sameSettings : later.settings = context.settings :=
    context.after_settings _
  have sameDepth : later.depth = context.depth := context.after_depth _
  constructor
  · intro refused
    obtain ⟨unchanged, noResult⟩ :=
      refused.fails context.levels ⟨context.cache, context.depth, []⟩ rfl
    have sameCache : later.cache = context.cache := by
      simp only [later, after, run_simplify]
      exact unchanged
    have same : later = context := by
      rw [show later = ⟨later.settings, later.depth, later.cache⟩ from rfl,
        sameSettings, sameDepth, sameCache]
    refine ⟨?_, fun e' => by rw [same]⟩
    rw [run_simplify]
    cases outcome :
      (context.run (simplifyAt context.settings context.levels e)).1 with
    | error failure => exact ⟨failure, rfl⟩
    | ok result => exact (noResult result outcome).elim
  · intro e' settled
    rw [run_simplify, run_simplify, sameSettings, levels, sameSettings,
      sameDepth]
    refine outcome_simplifyAt_congr ?_ _
    obtain isLeaf | hasForeign | ⟨result, answered⟩ := settled
    · exact .inl isLeaf
    · exact .inr (.inl hasForeign)
    · cases found : e'.foreign? with
      | some object => exact .inr (.inl (Option.some_ne_none object))
      | none =>
        have answers : later.cache.answer context.settings e'.tokens e' =
            .ok (some result) :=
          after_retains (Cache.answer_lasting context.settings found result) rfl
            answered (.simplify e)
        exact .inr (.inr ⟨result, answers, answered⟩)

/-- The division by zero in `y + 1/0` is found before anything is remembered,
and it is found again.  The variable is no constant, so the quotient is the
first term that is evaluated. -/
theorem simplify_after_failure_divisionByZero :
    let e : Expr := .node .sum (.var "y") (.node .quotient (.int 1) (.int 0))
    let later := (ofSettings .standard).after (.simplify e)
    (later.run (later.simplify e)).1 =
      .error (.evaluation "/" [.int 1, .int 0] (.fault .divisionByZero)) := by
  intro e later
  have failed :
      ((ofSettings .standard).run ((ofSettings .standard).simplify e)).1 =
      .error (.evaluation "/" [.int 1, .int 0] (.fault .divisionByZero)) := by
    cbv
  have quotientRefused :
      (Expr.node .quotient (.int 1) (.int 0)).IsRefused .standard [] :=
    .unopened (Cache.isUnanswered_nil _ _) (by cbv)
  have opened : Pass.opened .standard .sum (.var "y")
      (.node .quotient (.int 1) (.int 0)) =
      .ok (some ([.var "y"] ++ .node .quotient (.int 1) (.int 0) :: [])) := by
    cbv
  have refused : e.IsRefused .standard [] :=
    .constant (Cache.isUnanswered_nil _ _) opened (by simp [Expr.isCompound])
      rfl quotientRefused
  exact (((simplify_after_failure (ofSettings .standard) e).1 refused).2
    e).trans failed

/-- The half-finished result `x/0` is remembered when `y-y+x/(x-x)` fails, and
returned when the same tree is simplified again.  So is `x*2` when one pass over
`x+x` is all that is allowed. -/
theorem simplify_after_failure_recalled :
    let x : Expr := .var "x"
    let y : Expr := .var "y"
    let e : Expr := .node .sum (.node .difference y y)
      (.node .quotient x (.node .difference x x))
    let context := ofSettings .standard
    let later := context.after (.simplify e)
    let single := ofSettings ⟨.standard, ⟨1, 100⟩, true⟩
    let later' := single.after (.simplify (.node .sum x x))
    ((context.run (context.simplify e)).1 =
        .error (.evaluation "/" [.int 1, .int 0] (.fault .divisionByZero)) ∧
      (later.run (later.simplify e)).1 = .ok (.node .quotient x (.int 0))) ∧
    (single.run (single.simplify (.node .sum x x))).1 =
        .error (.divergence .iterations 1 (some (.node .sum x x))) ∧
      (later'.run (later'.simplify (.node .sum x x))).1 =
        .ok (.node .product x (.int 2)) := by
  refine ⟨⟨?_, ?_⟩, ?_, ?_⟩ <;> cbv

end Context
end Symbolic
