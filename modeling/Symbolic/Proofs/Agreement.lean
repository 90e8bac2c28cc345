import Symbolic.Proofs.RelatedRuns
import Symbolic.Simplification.Engine

/-!
# Agreement of computations

Two computations agree, up to errors of some kinds, when the second one does
exactly what the first one does unless that fails with such an error: it has the
same outcome and leaves the same memory.  The steps of a pass handle none of the
errors of the simplifications that they are given, so they agree as soon as
these do.
-/

namespace Symbolic
namespace Work

variable {α β : Type} {ignored : Error -> Prop}

/-- The second computation does what the first one does, unless that fails with
an ignored error. -/
def Agrees (ignored : Error -> Prop) (first second : Work α) : Prop :=
  ∀ memory, (∀ failure, (first.outcome memory).1 = .error failure ->
    ¬ ignored failure) ->
    second.outcome memory = first.outcome memory

namespace Agrees

theorem refl (work : Work α) : Agrees ignored work work :=
  fun _ _ => rfl

/-- What fails with an ignored error agrees with everything. -/
theorem throw
    {failure : Error}
    (isIgnored : ignored failure)
    (work : Work α) :
    Agrees ignored (MonadExcept.throw failure) work := by
  intro memory counted
  exact absurd isIgnored (counted failure rfl)

/-- Agreement passes from the parts of a sequence to the sequence. -/
theorem bind
    {first second : Work α}
    {next next' : α -> Work β}
    (agrees : Agrees ignored first second)
    (nextAgrees : ∀ a, Agrees ignored (next a) (next' a)) :
    Agrees ignored (first >>= next) (second >>= next') := by
  intro memory counted
  rw [outcome_bind] at counted ⊢
  have firstCounted (failure : Error)
      (failed : (first.outcome memory).1 = .error failure) :
      ¬ ignored failure := by
    apply counted failure
    generalize first.outcome memory = reached at failed
    obtain ⟨result, after⟩ := reached
    cases failed
    rfl
  rw [outcome_bind, agrees memory firstCounted]
  generalize first.outcome memory = reached at counted
  obtain ⟨result, after⟩ := reached
  cases result with
  | ok a => exact nextAgrees a after counted
  | error failure => rfl

theorem bind_right
    (work : Work α)
    {next next' : α -> Work β}
    (nextAgrees : ∀ a, Agrees ignored (next a) (next' a)) :
    Agrees ignored (work >>= next) (work >>= next') :=
  bind (refl work) nextAgrees

theorem isolated
    {first second : Work α}
    (agrees : Agrees ignored first second) :
    Agrees ignored (Work.isolated first) (Work.isolated second) := by
  intro memory counted
  rw [outcome_isolated, outcome_isolated, agrees memory counted]

end Agrees
end Work

open Work

/-- Agreement is respected by the ways of building computations. -/
def Work.agreement (ignored : Error -> Prop) : Congruence where
  Related := Agrees ignored
  lift := fun _ => .refl _
  note := fun _ => .refl _
  bind := .bind

section Steps

variable {ignored : Error -> Prop} {settings settings' : Settings}
  (sameRegistry : settings'.registry = settings.registry)
  {recursion recursion' : Recursion}
  (agrees : ∀ e, Agrees ignored (recursion e) (recursion' e))

include sameRegistry agrees

theorem reduceChain_agrees
    (focus : Operation)
    (source : Expr) :
    Agrees ignored (Pass.reduceChain settings recursion focus source)
      (Pass.reduceChain settings' recursion' focus source) :=
  reduceChain_related (agreement ignored) sameRegistry agrees focus source

/-- A pass over a node agrees with a pass that simplifies operands the same
way. -/
theorem Pass.run_agrees
    (e : Expr) :
    Agrees ignored (Pass.run settings recursion e)
      (Pass.run settings' recursion' e) :=
  Pass.run_related (agreement ignored) sameRegistry agrees fun _ => .refl _

end Steps
end Symbolic
