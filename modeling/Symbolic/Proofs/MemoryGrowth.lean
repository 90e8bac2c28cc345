import Symbolic.Proofs.ExactSearch
import Symbolic.Proofs.NestingLevels

/-!
# How the memory grows

The memory only grows, and always in the same way: a result is filed under the
fingerprint of its tree, after a search for that tree has found nothing.
`Engine.Lasting` says of an invariant that it survives this.  It then survives
every simplification, whether that returns or fails, since the passes that may
file other things work on a copy that is given up.

A context is used by calls: its trees are simplified, the terms of a chain are
collected and multiples are looked for.  What lasts is still there after any
number of them.
-/

namespace Symbolic

/-- Only trees without foreign objects have a fingerprint. -/
theorem Expr.foreign?_of_fingerprint
    {e : Expr}
    {key : Fingerprint}
    (hashed : e.fingerprint = .ok key) :
    e.foreign? = none := by
  unfold fingerprint at hashed
  split at hashed
  · cases hashed
  · assumption

namespace Cache

/-- What a search finds under a fingerprint: the result of an equal tree, or
with tolerant searches the first result of the bucket. -/
def answer
    (settings : Settings)
    (key : Fingerprint)
    (source : Expr)
    (cache : Cache) : Result (Option Expr) := do
  let found ← firstEqual (cache.bucket key) source
  return found.or <|
    if settings.reusesCollisions then
      (cache.bucket key).head?.map Remembered.result
    else none

/-- Searches for equal trees compare them with the same results. -/
theorem firstEqual_congr
    {e e' : Expr}
    (equal : e.equal e' = .ok true)
    (entries : List Remembered) :
    firstEqual entries e = firstEqual entries e' := by
  induction entries with
  | nil => rfl
  | cons entry rest inductive_step =>
    rw [firstEqual, firstEqual, Expr.equal_congr_right equal, inductive_step]

/-- Equal trees get the same answer. -/
theorem answer_congr
    (settings : Settings)
    {e e' : Expr}
    (equal : e.equal e' = .ok true)
    (cache : Cache) :
    cache.answer settings e.tokens e = cache.answer settings e'.tokens e' := by
  rw [answer, answer, Expr.tokens_of_equal equal, firstEqual_congr equal]

end Cache

namespace Work

/-- What is retrieved is the answer of the memory, which stays as it is. -/
theorem outcome_retrieve
    (settings : Settings)
    (key : Fingerprint)
    (source : Expr)
    (memory : Memory) :
    ((retrieve settings key source).outcome memory).1 =
        memory.cache.answer settings key source ∧
      ((retrieve settings key source).outcome memory).2.cache =
        memory.cache := by
  unfold retrieve Cache.answer
  rw [outcome_bind, outcome_findEqual]
  cases Cache.firstEqual (memory.cache.bucket key) source with
  | error failure => exact ⟨rfl, rfl⟩
  | ok found =>
    cases found with
    | some result => exact ⟨rfl, rfl⟩
    | none =>
      simp only [outcome_bind, outcome_get]
      cases memory.cache.bucket key with
      | nil => simp
      | cons first rest =>
        cases settings.reusesCollisions <;> simp only <;> exact ⟨rfl, rfl⟩

/-- A computation that keeps an invariant, whatever it returns. -/
abbrev Retains (invariant : Cache -> Prop) (work : Work α) : Prop :=
  work.Keeps invariant fun _ => True

namespace Retains

variable {α β : Type} {invariant : Cache -> Prop}

theorem pure (a : α) : Retains invariant (Pure.pure a) :=
  Keeps.pure trivial

theorem lift (result : Result α) : Retains invariant (liftM result : Work α) :=
  Keeps.lift fun _ _ => trivial

theorem bind
    {work : Work α}
    {next : α -> Work β}
    (first : Retains invariant work)
    (second : ∀ a, Retains invariant (next a)) :
    Retains invariant (work >>= next) :=
  Keeps.bind first fun a _ => second a

theorem findEqual (key : Fingerprint) (source : Expr) :
    Retains invariant (Work.findEqual key source) := by
  intro memory holds
  rw [outcome_findEqual]
  exact ⟨holds, fun _ _ => trivial⟩

/-- Nothing that an isolated computation remembers is kept, whatever it is. -/
theorem isolated (work : Work α) : Retains invariant (Work.isolated work) :=
  fun _ holds => ⟨holds, fun _ _ => trivial⟩

end Retains
end Work

open Work

/-- To keep an invariant is a relation that only looks at the second
computation. -/
def Work.retaining (invariant : Cache -> Prop) : Congruence where
  Related := fun _ work => Retains invariant work
  lift := .lift
  note := fun event => Keeps.note event
  bind := .bind

section Retains

variable {invariant : Cache -> Prop} {settings : Settings}
  {recursion : Recursion} (recursive : ∀ e, Retains invariant (recursion e))

include recursive

theorem collect_retains (focus : Operation) (terms : List Expr) :
    Retains invariant (collect settings recursion focus terms) := by
  have related :
      (retaining invariant).Related (collect settings recursion focus terms)
      (collect settings recursion focus terms) :=
    collect_related (retaining invariant) rfl recursive focus terms
  exact related

theorem multiple_retains
    (operation : Operation)
    (base target : Expr) :
    Retains invariant (multiple settings recursion operation base target) := by
  have related :
      (retaining invariant).Related
        (multiple settings recursion operation base target)
        (multiple settings recursion operation base target) :=
    multiple_related (retaining invariant) rfl recursive operation base target
  exact related

/-- A pass remembers nothing itself but a result of its node. -/
theorem Pass.run_retains
    {e : Expr}
    (remembers : ∀ result,
      Retains invariant (remember e.tokens e result false)) :
    Retains invariant (Pass.run settings recursion e) := by
  have related : (retaining invariant).Related (Pass.run settings recursion e)
      (Pass.run settings recursion e) :=
    Pass.run_related (retaining invariant) rfl recursive remembers
  exact related

end Retains

/-! ## The engine -/

namespace Engine

/-- An invariant that survives what the engine adds to the memory.  `missed`
holds of the trees that a search may have missed while the invariant held; a
result of such a tree may be filed. -/
structure Lasting
    (settings : Settings)
    (invariant : Cache -> Prop)
    (missed : Expr -> Prop) : Prop where
  misses : ∀ cache source, source.foreign? = none -> invariant cache ->
    cache.answer settings source.tokens source = .ok none -> missed source
  inserts : ∀ cache source result atFront, source.foreign? = none ->
    missed source ->
    invariant cache ->
      invariant (cache.insert source.tokens ⟨source, result⟩ atFront)

namespace Lasting

variable {settings : Settings} {invariant : Cache -> Prop}
  {missed : Expr -> Prop} (lasting : Lasting settings invariant missed)

include lasting

/-- What was missed may be recorded: no answer is displaced by it. -/
theorem remember_retains
    {source : Expr}
    (noForeign : source.foreign? = none)
    (wasMissed : missed source)
    (result : Expr)
    (atFront : Bool) :
    Retains invariant (remember source.tokens source result atFront) :=
  fun _ holds =>
    ⟨lasting.inserts _ source result atFront noForeign wasMissed holds,
    fun _ _ => trivial⟩

/-- What is remembered in the passes after the first one is given up. -/
theorem iterate_retains
    {recursion : Recursion}
    (recursive : ∀ e, Retains invariant (recursion e))
    (source : Expr)
    (passes : Nat)
    {current : Expr}
    (noForeign : current.foreign? = none)
    (wasMissed : missed current) :
    Retains invariant (iterate settings recursion source passes current) := by
  cases passes with
  | zero => exact Keeps.throw _ _
  | succ passes =>
    rw [iterate]
    refine .bind (Pass.run_retains recursive ?_) fun pass => ?_
    · exact fun result =>
        lasting.remember_retains noForeign wasMissed result false
    · split
      · refine .bind (.lift _) fun key => .bind (.findEqual _ _) fun found => ?_
        cases found with
        | some previous => exact .bind (Keeps.note _) fun _ => .pure _
        | none => exact .bind (Keeps.note _) fun _ => .isolated _
      · exact .pure _

/-- Simplifying a grouping retains all answers. -/
theorem simplifyNode_retains
    {recursion : Recursion}
    (recursive : ∀ e, Retains invariant (recursion e))
    (source : Expr) :
    Retains invariant (simplifyNode settings recursion source) := by
  unfold simplifyNode
  refine Keeps.bind (Keeps.lift fun _ hashed => hashed) fun key hashed => ?_
  have noForeign := Expr.foreign?_of_fingerprint hashed
  obtain rfl := Expr.eq_tokens_of_fingerprint hashed
  have retrieves : (retrieve settings source.tokens source).Keeps invariant
      fun found => found = none -> missed source := by
    intro memory holds
    obtain ⟨answered, unchanged⟩ :=
      outcome_retrieve settings source.tokens source memory
    rw [answered, unchanged]
    refine ⟨holds, ?_⟩
    rintro _ nothing rfl
    exact lasting.misses memory.cache source noForeign holds nothing
  refine Keeps.bind retrieves fun found miss => ?_
  cases found with
  | some result => exact Retains.bind (Keeps.note _) fun _ => .pure _
  | none =>
    have wasMissed := miss rfl
    refine Retains.bind (lasting.iterate_retains recursive _ _ noForeign
      wasMissed) fun result => ?_
    exact Retains.bind (lasting.remember_retains noForeign wasMissed result
      true) fun _ => .pure _

/-- Whatever tree is simplified, and whether that succeeds or fails. -/
theorem simplifyAt_retains (levels : Nat) (e : Expr) :
    Retains invariant (simplifyAt settings levels e) := by
  induction levels generalizing e with
  | zero => exact Keeps.throw _ _
  | succ levels inductive_step =>
    cases e with
    | wrap inner => exact inductive_step inner
    | node operation left right =>
      exact lasting.simplifyNode_retains inductive_step _
    | foreign object => exact Keeps.throw _ _
    | _ => exact .pure _

end Lasting
end Engine

/-! ## Calls in a context -/

namespace Context

/-- A use of a context. -/
inductive Call where
  | simplify (e : Expr)
  | collect (focus : Operation) (terms : List Expr)
  | multiple (operation : Operation) (base target : Expr)

/-- The context after a call, whether it returns or fails. -/
def after (context : Context) : Call -> Context
  | .simplify e => (context.run (context.simplify e)).2.1
  | .collect focus terms => (context.run (context.collect focus terms)).2.1
  | .multiple operation base target =>
    (context.run (context.multiple operation base target)).2.1

/-- The context after several calls, one after the other. -/
def afterAll (context : Context) (calls : List Call) : Context :=
  calls.foldl after context

@[simp] theorem after_settings (context : Context) (call : Call) :
    (context.after call).settings = context.settings := by
  cases call <;> rfl

/-- Every level that a call enters is left when it ends, also by a failure. -/
@[simp] theorem after_depth (context : Context) (call : Call) :
    (context.after call).depth = context.depth := by
  cases call with
  | simplify e =>
    exact (run_eq_of_sameAt (simplify_sameAt context.settings _ _ e)).2
  | collect focus terms =>
    exact (run_eq_of_sameAt (context.collect_sameAt focus terms _ _)).2
  | multiple operation base target =>
    exact (run_eq_of_sameAt
      (context.multiple_sameAt operation base target _ _)).2

/-- What lasts is kept by every call. -/
theorem after_retains
    {settings : Settings}
    {invariant : Cache -> Prop}
    {missed : Expr -> Prop}
    (lasting : Engine.Lasting settings invariant missed)
    {context : Context}
    (ofSettings : context.settings = settings)
    (holds : invariant context.cache)
    (call : Call) :
    invariant (context.after call).cache := by
  subst ofSettings
  have recursive := lasting.simplifyAt_retains context.levels
  cases call with
  | simplify e =>
    rw [after, run_simplify]
    exact (recursive e _ holds).1
  | collect focus terms =>
    rw [after, (run_eq_of_sameAt (context.collect_sameAt focus terms _ _)).1]
    exact (collect_retains recursive focus terms _ holds).1
  | multiple operation base target =>
    rw [after,
      (run_eq_of_sameAt (context.multiple_sameAt operation base target _ _)).1]
    exact (multiple_retains recursive operation base target _ holds).1

/-- What lasts is kept by any number of calls, which leave the settings and the
depth alone. -/
theorem afterAll_retains
    {settings : Settings}
    {invariant : Cache -> Prop}
    {missed : Expr -> Prop}
    (lasting : Engine.Lasting settings invariant missed)
    {context : Context}
    (ofSettings : context.settings = settings)
    (holds : invariant context.cache)
    (calls : List Call) :
    (context.afterAll calls).settings = settings ∧
      (context.afterAll calls).depth = context.depth ∧
        invariant (context.afterAll calls).cache := by
  induction calls generalizing context with
  | nil => exact ⟨ofSettings, rfl, holds⟩
  | cons call calls inductive_step =>
    have later :=
      inductive_step ((context.after_settings call).trans ofSettings)
      (after_retains lasting ofSettings holds call)
    rwa [after_depth] at later

end Context
end Symbolic
