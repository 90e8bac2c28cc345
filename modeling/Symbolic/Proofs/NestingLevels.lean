import Symbolic.Context
import Symbolic.Proofs.RelatedRuns

/-!
# Levels of nested simplifications

A simplification enters a level of the memory and leaves it again on every way
out, by a result or by a failure.  So after a call the depth is what it was
before, and during the call it only says how many levels are left.  `simplifyAt`
counts these down instead of asking the memory; `simplify_sameAt` says that it
does the same and that both leave the depth as they found it.

The fuel of a simplification never runs out before the levels do:
`outcome_simplify_eq` is the recursion without fuel.
-/

namespace Symbolic
namespace Work

variable {α β : Type}

/-- Two computations do the same at two depths, and leave them as they found
them. -/
def SameAt
    (depth depth' : Nat)
    (first second : Work α) : Prop :=
  ∀ cache events, ∃ result cache' events',
    first.outcome ⟨cache, depth, events⟩ = (result, ⟨cache', depth, events'⟩) ∧
      second.outcome ⟨cache, depth', events⟩ =
        (result, ⟨cache', depth', events'⟩)

namespace SameAt

variable {depth depth' : Nat}

theorem lift (result : Result α) :
    SameAt depth depth' (liftM result : Work α) (liftM result : Work α) :=
  fun _ _ => ⟨_, _, _, rfl, rfl⟩

theorem throw (failure : Error) :
    SameAt depth depth' (MonadExcept.throw failure : Work α)
      (MonadExcept.throw failure) :=
  fun _ _ => ⟨_, _, _, rfl, rfl⟩

theorem note (event : Event) :
    SameAt depth depth' (Work.note event) (Work.note event) :=
  fun _ _ => ⟨_, _, _, rfl, rfl⟩

theorem remember
    (key : Fingerprint)
    (source result : Expr)
    (atFront : Bool) :
    SameAt depth depth' (Work.remember key source result atFront)
      (Work.remember key source result atFront) :=
  fun _ _ => ⟨_, _, _, rfl, rfl⟩

theorem findEqual (key : Fingerprint) (source : Expr) :
    SameAt depth depth' (Work.findEqual key source)
      (Work.findEqual key source) :=
  fun _ _ => ⟨_, _, _, rfl, rfl⟩

/-- Runs that are the same at two depths may be continued, since both depths are
restored. -/
theorem bind
    {first second : Work α}
    {next next' : α -> Work β}
    (same : SameAt depth depth' first second)
    (nextSame : ∀ a, SameAt depth depth' (next a) (next' a)) :
    SameAt depth depth' (first >>= next) (second >>= next') := by
  intro cache events
  obtain ⟨result, cache', events', ran, ran'⟩ := same cache events
  rw [outcome_bind, outcome_bind, ran, ran']
  cases result with
  | ok a => exact nextSame a cache' events'
  | error failure => exact ⟨_, _, _, rfl, rfl⟩

theorem retrieve
    (settings : Settings)
    (key : Fingerprint)
    (source : Expr) :
    SameAt depth depth' (Work.retrieve settings key source)
      (Work.retrieve settings key source) := by
  refine bind (findEqual key source) fun found => ?_
  cases found with
  | some result => exact lift (.ok (some result))
  | none =>
    intro cache events
    simp only [outcome_bind, outcome_get]
    cases cache.bucket key with
    | nil => exact ⟨_, _, _, rfl, rfl⟩
    | cons first rest =>
      cases settings.reusesCollisions <;> exact ⟨_, _, _, rfl, rfl⟩

/-- The copy on which an isolated computation works has the same depth. -/
theorem isolated
    {first second : Work α}
    (same : SameAt depth depth' first second) :
    SameAt depth depth' (Work.isolated first) (Work.isolated second) := by
  intro cache events
  obtain ⟨result, cache', events', ran, ran'⟩ := same cache events
  rw [outcome_isolated, outcome_isolated, ran, ran']
  exact ⟨_, _, _, rfl, rfl⟩

/-- A level that is entered is left again. -/
theorem descend
    {settings : Settings}
    {e : Expr}
    {first second : Work α}
    (isLeft : depth < settings.limits.depth)
    (same : SameAt (depth + 1) depth' first second) :
    SameAt depth depth' (Work.descend settings e first) second := by
  intro cache events
  obtain ⟨result, cache', events', ran, ran'⟩ := same cache events
  refine ⟨result, cache', events', ?_, ran'⟩
  rw [outcome_descend, if_neg (Nat.not_le_of_lt isLeft), ran]
  rfl

/-- When all levels are entered, no further one is. -/
theorem descend_throw
    {settings : Settings}
    {e : Expr}
    (first : Work α)
    (noneLeft : settings.limits.depth ≤ depth) :
    SameAt depth depth' (Work.descend settings e first)
      (MonadExcept.throw
        (.divergence .depth settings.limits.depth (some e))) := by
  intro cache events
  refine ⟨_, cache, events, ?_, rfl⟩
  rw [outcome_descend, if_pos noneLeft]

/-- At one and the same depth the same runs have the same outcome. -/
theorem outcome_eq
    {first second : Work α}
    {memory : Memory}
    (same : SameAt memory.depth memory.depth first second) :
    first.outcome memory = second.outcome memory := by
  obtain ⟨_, _, _, ran, ran'⟩ := same memory.cache memory.events
  exact ran.trans ran'.symm

end SameAt

/-- To do the same at two depths is respected by the ways of building
computations. -/
def sameAt (depth depth' : Nat) : Congruence where
  Related := SameAt depth depth'
  lift := .lift
  note := .note
  bind := .bind

end Work

open Work (SameAt)

/-! ## The engine -/

section Engine

variable {depth depth' : Nat} {settings : Settings}
  {recursion recursion' : Recursion}
  (same : ∀ e, SameAt depth depth' (recursion e) (recursion' e))

include same

/-- The passes are the same if the recursions are. -/
theorem iterate_sameAt
    (source : Expr)
    (passes : Nat)
    (current : Expr) :
    SameAt depth depth' (iterate settings recursion source passes current)
      (iterate settings recursion' source passes current) := by
  induction passes generalizing current with
  | zero => exact .throw _
  | succ passes inductive_step =>
    rw [iterate, iterate]
    refine .bind (Pass.run_related (Work.sameAt depth depth') rfl same
      fun _ => .remember _ _ _ _) fun pass => ?_
    split
    · refine .bind (.lift _) fun key => .bind (.findEqual _ _) fun found => ?_
      cases found with
      | some previous => exact .bind (.note _) fun _ => .lift (.ok previous)
      | none =>
        refine .bind (.note _) fun _ => .isolated ?_
        exact .bind (.remember _ _ _ _) fun _ => inductive_step pass.result
    · exact .lift (.ok pass.result)

theorem simplifyNode_sameAt (source : Expr) :
    SameAt depth depth' (simplifyNode settings recursion source)
      (simplifyNode settings recursion' source) := by
  unfold simplifyNode
  refine .bind (.lift _) fun key => .bind (.retrieve _ _ _) fun found => ?_
  cases found with
  | some remembered => exact .bind (.note _) fun _ => .lift (.ok remembered)
  | none =>
    refine .bind (iterate_sameAt same source _ source) fun result => ?_
    exact .bind (.remember _ _ _ _) fun _ => .lift (.ok result)

theorem simplifyRoot_sameAt (e : Expr) :
    SameAt depth depth' (simplifyRoot settings recursion e)
      (simplifyRoot settings recursion' e) := by
  cases e with
  | wrap inner => exact same inner
  | node operation left right => exact simplifyNode_sameAt same _
  | foreign object => exact .throw _
  | _ => exact .lift (.ok _)

end Engine

/-- Simplify a tree with the given number of levels left, whatever the depth. -/
def simplifyAt (settings : Settings) : (levels : Nat) -> Expr -> Work Expr
  | 0, e => throw (.divergence .depth settings.limits.depth (some e))
  | levels + 1, e => simplifyRoot settings (simplifyAt settings levels) e

/-- To simplify operands one level further down is to have one level less. -/
theorem descend_sameAt
    {settings : Settings}
    {depth depth' : Nat}
    {recursion : Recursion}
    (same : ∀ e, SameAt (depth + 1) depth' (recursion e)
      (simplifyAt settings (settings.limits.depth - (depth + 1)) e))
    (e : Expr) :
    SameAt depth depth'
      (Work.descend settings e (simplifyRoot settings recursion e))
      (simplifyAt settings (settings.limits.depth - depth) e) := by
  by_cases noneLeft : settings.limits.depth ≤ depth
  · rw [Nat.sub_eq_zero_of_le noneLeft]
    exact .descend_throw _ noneLeft
  · have levels : settings.limits.depth - depth =
        settings.limits.depth - (depth + 1) + 1 := by omega
    rw [levels]
    exact .descend (Nat.lt_of_not_le noneLeft) (simplifyRoot_sameAt same e)

/-- With fuel for all levels that are left, these alone count. -/
theorem simplifyWithin_sameAt
    {settings : Settings}
    {fuel depth : Nat}
    (enough : settings.limits.depth - depth ≤ fuel)
    (depth' : Nat)
    (e : Expr) :
    SameAt depth depth' (simplifyWithin settings fuel e)
      (simplifyAt settings (settings.limits.depth - depth) e) := by
  induction fuel generalizing depth e with
  | zero =>
    rw [Nat.le_zero.1 enough]
    exact .throw _
  | succ fuel inductive_step =>
    rw [simplifyWithin]
    exact descend_sameAt (fun e => inductive_step (by omega) e) e

/-- A simplification does what the levels that are left allow, and leaves the
depth as it found it. -/
theorem simplify_sameAt
    (settings : Settings)
    (depth depth' : Nat)
    (e : Expr) :
    SameAt depth depth' (simplify settings e)
      (simplifyAt settings (settings.limits.depth - depth) e) :=
  simplifyWithin_sameAt (Nat.le_refl _) depth' e

/-- Counting the levels down comes to the same as asking the memory. -/
theorem outcome_simplify
    (settings : Settings)
    (e : Expr)
    (memory : Memory) :
    (simplify settings e).outcome memory =
      (simplifyAt settings (settings.limits.depth - memory.depth) e).outcome
        memory :=
  (simplify_sameAt settings memory.depth memory.depth e).outcome_eq

/-- A simplification enters a level, in which operands are simplified in the
same way, and leaves it. -/
theorem outcome_simplify_eq
    (settings : Settings)
    (e : Expr)
    (memory : Memory) :
    (simplify settings e).outcome memory =
      (Work.descend settings e
        (simplifyRoot settings (simplify settings) e)).outcome memory := by
  rw [outcome_simplify]
  refine (SameAt.outcome_eq ?_).symm
  exact descend_sameAt (simplify_sameAt settings _ _) e

/-- A call with a memory of its own starts with all levels left. -/
theorem simplified_eq (settings : Settings) (e : Expr) :
    simplified settings e =
      ((simplifyAt settings settings.limits.depth e).outcome .empty).1 :=
  congrArg Prod.fst (outcome_simplify settings e .empty)

/-! ## Calls in a context -/

namespace Context

/-- A computation that does the same when levels are counted down has the same
outcome in a context, and leaves its depth alone. -/
theorem run_eq_of_sameAt
    {context : Context}
    {first second : Work α}
    (same : SameAt context.depth context.depth first second) :
    context.run first = context.run second ∧
      (context.run first).2.1.depth = context.depth := by
  obtain ⟨_, _, _, ran, ran'⟩ := same context.cache []
  simp only [run, ran, ran', and_self]

/-- A call in a context starts with the levels that the context has left. -/
theorem run_simplify (context : Context) (e : Expr) :
    context.run (context.simplify e) =
      context.run (simplifyAt context.settings context.levels e) :=
  (run_eq_of_sameAt (simplify_sameAt context.settings _ _ e)).1

theorem collect_sameAt
    (context : Context)
    (focus : Operation)
    (terms : List Expr)
    (depth depth' : Nat) :
    SameAt depth depth' (context.collect focus terms)
      (Symbolic.collect context.settings
        (simplifyAt context.settings (context.settings.limits.depth - depth))
          focus terms) :=
  collect_related (Work.sameAt _ _) rfl (simplify_sameAt context.settings _ _)
    focus terms

theorem multiple_sameAt
    (context : Context)
    (operation : Operation)
    (base target : Expr)
    (depth depth' : Nat) :
    SameAt depth depth' (context.multiple operation base target)
      (Symbolic.multiple context.settings
        (simplifyAt context.settings (context.settings.limits.depth - depth))
        operation base target) :=
  multiple_related (Work.sameAt _ _) rfl (simplify_sameAt context.settings _ _)
    operation base target

end Context
end Symbolic
