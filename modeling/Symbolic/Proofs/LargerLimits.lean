import Symbolic.Proofs.Agreement
import Symbolic.Proofs.NestingLevels

/-!
# Larger limits never change an answer

The limits of a simplification are only asked whether to go on, and running into
one ends the work at once.  So a simplification with larger limits agrees with
one with smaller limits up to divergence: the two build the same memory step by
step, at every level and in every pass, until the smaller limits are exceeded.
-/

namespace Symbolic

/-- The error is that a bound was exceeded. -/
def Error.IsDivergence : Error -> Prop
  | divergence _ _ _ => True
  | _ => False

/-- The settings with other limits. -/
def Settings.within (settings : Settings) (limits : Limits) : Settings :=
  { settings with limits }

@[simp] theorem Settings.within_registry
    (settings : Settings)
    (limits : Limits) :
    (settings.within limits).registry = settings.registry := rfl

/-- The limits allow at least as many passes and levels as others. -/
structure Limits.AtMost (limits limits' : Limits) : Prop where
  iterations : limits.iterations ≤ limits'.iterations
  depth : limits.depth ≤ limits'.depth

section Engine

variable {settings : Settings} {limits : Limits}
  {recursion recursion' : Recursion}
  (agrees : ∀ e, Work.Agrees Error.IsDivergence (recursion e) (recursion' e))

include agrees

/-- More passes do what fewer passes do. -/
theorem iterate_agrees
    (source : Expr)
    {passes passes' : Nat}
    (more : passes ≤ passes')
    (current : Expr) :
    Work.Agrees Error.IsDivergence
      (iterate settings recursion source passes current)
      (iterate (settings.within limits) recursion' source passes' current) := by
  induction passes generalizing passes' current with
  | zero =>
    exact .throw (show Error.IsDivergence (.divergence _ _ _) from trivial) _
  | succ passes inductive_step =>
    obtain ⟨passes', rfl⟩ : ∃ count, passes' = count + 1 :=
      ⟨passes' - 1, by omega⟩
    simp only [iterate]
    refine .bind (Pass.run_agrees (settings.within_registry limits) agrees
      current) fun pass => ?_
    split
    · refine .bind_right _ fun key => .bind_right _ fun found => ?_
      cases found with
      | some previous => exact .refl _
      | none =>
        refine .bind_right _ fun _ => .isolated (.bind_right _ fun _ => ?_)
        exact inductive_step (Nat.le_of_succ_le_succ more) pass.result
    · exact .refl _

theorem simplifyNode_agrees
    (more : settings.limits.iterations ≤ limits.iterations)
    (source : Expr) :
    Work.Agrees Error.IsDivergence (simplifyNode settings recursion source)
      (simplifyNode (settings.within limits) recursion' source) := by
  unfold simplifyNode
  refine .bind_right _ fun key => .bind (.refl _) fun found => ?_
  cases found with
  | some remembered => exact .refl _
  | none =>
    exact .bind (iterate_agrees agrees source more source) fun _ => .refl _

end Engine

/-- More levels and more passes do what fewer of them do. -/
theorem simplifyAt_agrees
    {settings : Settings}
    {limits : Limits}
    (more : settings.limits.iterations ≤ limits.iterations)
    {levels levels' : Nat}
    (deeper : levels ≤ levels')
    (e : Expr) :
    Work.Agrees Error.IsDivergence (simplifyAt settings levels e)
      (simplifyAt (settings.within limits) levels' e) := by
  induction levels generalizing levels' e with
  | zero =>
    exact .throw (show Error.IsDivergence (.divergence _ _ _) from trivial) _
  | succ levels inductive_step =>
    obtain ⟨levels', rfl⟩ : ∃ count, levels' = count + 1 :=
      ⟨levels' - 1, by omega⟩
    have recursively := inductive_step (Nat.le_of_succ_le_succ deeper)
    cases e with
    | wrap inner => exact recursively inner
    | node operation left right => exact simplifyNode_agrees recursively more _
    | foreign object => exact .refl _
    | blank => exact .refl _
    | const value => exact .refl _
    | var name => exact .refl _

/-- Whatever the registry and the searches, a tree that a simplification returns
is also returned with larger limits, and so is an error other than that a limit
was exceeded. -/
theorem simplified_of_larger_limits
    (settings : Settings)
    (limits : Limits)
    (larger : settings.limits.AtMost limits)
    (e : Expr) :
    (∀ result, simplified settings e = .ok result ->
      simplified (settings.within limits) e = .ok result) ∧
    (∀ failure, simplified settings e = .error failure ->
      ¬ failure.IsDivergence ->
      simplified (settings.within limits) e = .error failure) := by
  have agrees := simplifyAt_agrees larger.iterations larger.depth e .empty
  have same (counted : ∀ failure, simplified settings e = .error failure ->
      ¬ failure.IsDivergence) :
      simplified (settings.within limits) e = simplified settings e := by
    rw [simplified_eq] at counted
    rw [simplified_eq, simplified_eq]
    exact congrArg Prod.fst (agrees counted)
  constructor
  · intro result returned
    rw [same (by simp [returned]), returned]
  · intro failure failed notDivergence
    rw [same (by simpa [failed] using notDivergence), failed]

/-- Three passes and two levels are enough for `x + x` to become `2*x`, and for
the fault in `x + 1/0` to be found; the usual limits give the same answers. -/
theorem simplified_of_larger_limits_double :
    simplified (Settings.standard.within .standard)
      (.node .sum (.var "x") (.var "x")) =
        .ok (.node .product (.int 2) (.var "x")) ∧
      simplified (Settings.standard.within .standard)
          (.node .sum (.var "x") (.node .quotient (.int 1) (.int 0))) =
        .error (.evaluation "/" [.int 1, .int 0] (.fault .divisionByZero)) := by
  have larger : (Settings.standard.within ⟨3, 2⟩).limits.AtMost .standard :=
    ⟨by decide, by decide⟩
  constructor
  · refine (simplified_of_larger_limits (Settings.standard.within ⟨3, 2⟩)
      .standard larger _).1 _ ?_
    cbv
  · refine (simplified_of_larger_limits (Settings.standard.within ⟨3, 2⟩)
      .standard larger _).2 _ ?_ ?_
    · cbv
    · exact not_false

end Symbolic
