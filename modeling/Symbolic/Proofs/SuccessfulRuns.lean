import Symbolic.Proofs.Agreement

/-!
# Successful runs

`Work.Reaches before work post after` is about runs that return: started with a
cache that satisfies `before`, the result satisfies `post` and the cache that is
left satisfies `after`. Nothing is said about a run that fails, so the cache may
go through states in which an invariant does not hold as long as it is repaired
before the computation returns.

A computation that only has such a specification can stand where an invariant
must be kept in any case if it gives up what it remembered when it fails,
`Work.restoring`.  As long as nothing fails, this makes no difference.
-/

namespace Symbolic
namespace Work

variable {α β : Type}

/-- What holds of the result and of the cache that is left when a computation
returns. -/
def Reaches
    (before : Cache -> Prop)
    (work : Work α)
    (post : α -> Prop)
    (after : Cache -> Prop) : Prop :=
  ∀ memory, before memory.cache ->
    ∀ result, (work.outcome memory).1 = .ok result ->
      post result ∧ after (work.outcome memory).2.cache

theorem Keeps.reaches
    {invariant : Cache -> Prop}
    {work : Work α}
    {post : α -> Prop}
    (keeps : Keeps invariant work post) :
    Reaches invariant work post invariant := by
  intro memory holds result returned
  obtain ⟨holdsAfter, good⟩ := keeps memory holds
  exact ⟨good result returned, holdsAfter⟩

namespace Reaches

variable {before after : Cache -> Prop}

theorem mono
    {work : Work α}
    {post post' : α -> Prop}
    {after' : Cache -> Prop}
    (reaches : Reaches before work post after)
    (weaker : ∀ result, post result -> post' result)
    (weakerAfter : ∀ cache, after cache -> after' cache) :
    Reaches before work post' after' := by
  intro memory holds result returned
  obtain ⟨good, holdsAfter⟩ := reaches memory holds result returned
  exact ⟨weaker result good, weakerAfter _ holdsAfter⟩

theorem pure
    {a : α}
    {post : α -> Prop}
    (good : post a)
    (weaker : ∀ cache, before cache -> after cache) :
    Reaches before (Pure.pure a) post after := by
  intro memory holds
  rintro result ⟨⟩
  exact ⟨good, weaker memory.cache holds⟩

theorem throw
    (failure : Error)
    (post : α -> Prop)
    (after : Cache -> Prop) :
    Reaches before (MonadExcept.throw failure : Work α) post after := by
  intro memory holds
  rintro result ⟨⟩

/-- The rule for a sequence of two computations. -/
theorem bind
    {work : Work α}
    {next : α -> Work β}
    {middle : α -> Prop}
    {between : Cache -> Prop}
    {post : β -> Prop}
    (first : Reaches before work middle between)
    (second : ∀ a, middle a -> Reaches between (next a) post after) :
    Reaches before (work >>= next) post after := by
  intro memory holds
  have reached := first memory holds
  rw [outcome_bind]
  generalize work.outcome memory = halfway at reached
  obtain ⟨result, left⟩ := halfway
  cases result with
  | ok a =>
    obtain ⟨good, holdsBetween⟩ := reached a rfl
    exact second a good left holdsBetween
  | error failure =>
    rintro result ⟨⟩

theorem map
    {work : Work α}
    {f : α -> β}
    {post : β -> Prop}
    (reaches : Reaches before work (fun a => post (f a)) after) :
    Reaches before (f <$> work) post after := by
  rw [map_eq_pure_bind]
  exact bind reaches fun a good => pure good fun _ holds => holds

/-- What an isolated computation remembers is given up. -/
theorem isolated
    {work : Work α}
    {post : α -> Prop}
    (reaches : Reaches before work post after) :
    Reaches before (Work.isolated work) post before :=
  fun memory holds result returned =>
    ⟨(reaches memory holds result returned).1, holds⟩

/-- A returning run is that of any computation that agrees with this one. -/
theorem of_agrees
    {ignored : Error -> Prop}
    {work work' : Work α}
    {post : α -> Prop}
    (agrees : Agrees ignored work work')
    (reaches : Reaches before work' post after) :
    Reaches before work post after := by
  intro memory holds result returned
  have same := agrees memory (by simp [returned])
  rw [← same] at returned ⊢
  exact reaches memory holds result returned

end Reaches

/-- Do the same, but give up what was remembered in case of a failure. -/
def restoring (work : Work α) : Work α :=
  fun memory =>
    match work.outcome memory with
    | (.ok a, after) => (.ok a, after)
    | (.error failure, after) =>
      (.error failure, { after with cache := memory.cache })

/-- After a success nothing is restored. -/
theorem outcome_restoring_of_ok
    {work : Work α}
    {memory after : Memory}
    {a : α}
    (returned : work.outcome memory = (.ok a, after)) :
    (restoring work).outcome memory = (.ok a, after) := by
  simp only [outcome, ExceptT.run, StateT.run] at returned ⊢
  simp only [restoring, outcome, ExceptT.run, StateT.run, returned]

/-- After a failure the memory is what it was before. -/
theorem outcome_restoring_of_error
    {work : Work α}
    {memory after : Memory}
    {failure : Error}
    (failed : work.outcome memory = (.error failure, after)) :
    (restoring work).outcome memory =
      (.error failure, { after with cache := memory.cache }) := by
  simp only [outcome, ExceptT.run, StateT.run] at failed ⊢
  simp only [restoring, outcome, ExceptT.run, StateT.run, failed]

/-- Restoring makes a difference only in case of a failure. -/
theorem agrees_restoring (work : Work α) :
    Agrees (fun _ => True) work (restoring work) := by
  intro memory counted
  cases reached : work.outcome memory with
  | mk result after =>
    cases result with
    | ok a => exact outcome_restoring_of_ok reached
    | error failure => exact absurd trivial (counted failure (by rw [reached]))

/-- What holds again when a computation returns is kept by it in any case if it
restores the cache in case of a failure. -/
theorem Reaches.restoring
    {invariant : Cache -> Prop}
    {work : Work α}
    {post : α -> Prop}
    (reaches : Reaches invariant work post invariant) :
    Keeps invariant (Work.restoring work) post := by
  intro memory holds
  cases reached : work.outcome memory with
  | mk result after =>
    cases result with
    | ok a =>
      obtain ⟨good, holdsAfter⟩ := reaches memory holds a (by rw [reached])
      rw [outcome_restoring_of_ok reached]
      rw [reached] at holdsAfter
      refine ⟨holdsAfter, ?_⟩
      rintro _ ⟨⟩
      exact good
    | error failure =>
      rw [outcome_restoring_of_error reached]
      refine ⟨holds, ?_⟩
      rintro _ ⟨⟩

end Work
end Symbolic
