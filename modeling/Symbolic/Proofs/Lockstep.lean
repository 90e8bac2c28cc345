import Mathlib.Data.List.Forall2
import Symbolic.Proofs.Equality
import Symbolic.Proofs.WorkLogic

/-!
# Computations in lockstep

Two computations are in lockstep when, started with related caches, both return
related results and leave related caches, or both fail with errors that are
alike.  Nothing is said about runs of which one is nested too deeply: the two
computations may need different numbers of levels for the same work.

There is one rule for every way of building a computation.  The errors of one
part of a sequence are those of the sequence, so a part that is nested too
deeply never matters.
-/

namespace Symbolic

/-- The same errors, up to wrappers in a tree that they quote. -/
inductive Error.Alike : Error -> Error -> Prop where
  | same (failure : Error) : Alike failure failure
  | divergence (bound : Bound) (limit : Int) {e e' : Expr} :
    e.equal e' = .ok true ->
      Alike (.divergence bound limit (some e))
        (.divergence bound limit (some e'))

/-- A tree without foreign objects is written unless one of its leaves cannot
be. -/
theorem Expr.writeText_eq
    {e : Expr}
    (noForeign : e.foreign? = none) :
    e.writeText = Expr.written (e.unwritable? (some .text)) e.text := by
  cases e with
  | foreign object => cases noForeign
  | _ => rfl

/-- Errors that are alike are reported as errors that are alike. -/
theorem Error.Alike.settle
    {failure failure' : Error}
    (alike : failure.Alike failure') :
    failure.settle.Alike failure'.settle := by
  cases alike with
  | same failure => exact .same failure.settle
  | @divergence bound limit e e' equal =>
    have noForeign := Expr.foreign?_of_equal equal
    have noForeign' := Expr.foreign?_of_equal (Expr.equal_symm equal)
    have sameObstacle :
        e.unwritable? (some .text) = e'.unwritable? (some .text) :=
      Expr.congr_of_equal (fun _ => rfl)
        (fun _ _ _ _ _ _ _ sameLeft sameRight =>
          by simp [Expr.unwritable?, sameLeft, sameRight])
        equal
    simp only [Error.settle, Error.describe, Expr.writeText_eq noForeign,
      Expr.writeText_eq noForeign', sameObstacle]
    cases e'.unwritable? (some .text) with
    | none => exact .divergence bound limit equal
    | some reason => exact .same reason.error

namespace Result

variable {α α' β β' : Type}

/-- Both return, with related results, or both fail, with errors that are
alike. -/
def Both (post : α -> α' -> Prop) : Result α -> Result α' -> Prop
  | .ok a, .ok a' => post a a'
  | .error failure, .error failure' => failure.Alike failure'
  | _, _ => False

namespace Both

/-- A calculation is in step with itself. -/
theorem refl
    {post : α -> α -> Prop}
    {result : Result α}
    (good : ∀ a, result = .ok a -> post a a) :
    Both post result result := by
  cases result with
  | ok a => exact good a rfl
  | error failure => exact .same failure

/-- If the first calculation fails, so does the second, and alike. -/
theorem exists_error
    {post : α -> α' -> Prop}
    {failure : Error}
    {result' : Result α'}
    (both : Both post (.error failure) result') :
    ∃ failure', result' = .error failure' ∧ failure.Alike failure' := by
  cases result' with
  | error failure' => exact ⟨failure', rfl, both⟩
  | ok a' => exact both.elim

/-- If the first calculation succeeds, so does the second. -/
theorem exists_ok
    {post : α -> α' -> Prop}
    {a : α}
    {result' : Result α'}
    (both : Both post (.ok a) result') :
    ∃ a', result' = .ok a' ∧ post a a' := by
  cases result' with
  | error failure' => exact both.elim
  | ok a' => exact ⟨a', rfl, both⟩

theorem mono
    {post post' : α -> α' -> Prop}
    {result : Result α}
    {result' : Result α'}
    (both : Both post result result')
    (weaker : ∀ a a', result = .ok a -> result' = .ok a' -> post a a' ->
      post' a a') :
    Both post' result result' := by
  cases result <;> cases result'
  · exact both
  · exact both
  · exact both
  · exact weaker _ _ rfl rfl both

/-- Calculations in step may be continued in step. -/
theorem bind
    {first : Result α}
    {first' : Result α'}
    {next : α -> Result β}
    {next' : α' -> Result β'}
    {middle : α -> α' -> Prop}
    {post : β -> β' -> Prop}
    (both : Both middle first first')
    (nextBoth : ∀ a a', middle a a' -> Both post (next a) (next' a')) :
    Both post (first >>= next) (first' >>= next') := by
  cases first <;> cases first'
  · exact both
  · exact both.elim
  · exact both.elim
  · exact nextBoth _ _ both

/-- A sequence that starts in the same way on both sides. -/
theorem bind_same
    {first : Result α}
    {next : α -> Result β}
    {next' : α -> Result β'}
    {post : β -> β' -> Prop}
    (nextBoth : ∀ a, Both post (next a) (next' a)) :
    Both post (first >>= next) (first >>= next') := by
  cases first with
  | error failure => exact .same failure
  | ok a => exact nextBoth a

/-- Two lists that are computed one after the other and appended. -/
theorem append
    {post : α -> α' -> Prop}
    {first second : Result (List α)}
    {first' second' : Result (List α')}
    (firstBoth : Both (List.Forall₂ post) first first')
    (secondBoth : Both (List.Forall₂ post) second second') :
    Both (List.Forall₂ post) (do return (← first) ++ (← second))
      (do return (← first') ++ (← second')) :=
  firstBoth.bind fun _ _ related => secondBoth.bind fun _ _ related' =>
    List.rel_append related related'

end Both

/-- No failure for too deep nesting. -/
def IsWithinDepth (result : Result α) : Prop :=
  ∀ limit tree, result ≠ .error (.divergence .depth limit tree)

theorem isWithinDepth_ok (a : α) : IsWithinDepth (.ok a : Result α) := by
  rintro limit tree ⟨⟩

end Result

namespace Work

variable {α α' β β' : Type} {related : Cache -> Cache -> Prop}

/-- From related caches, two computations that do not nest too deeply come to
related results and related caches, or to errors that are alike. -/
def Lockstep
    (related : Cache -> Cache -> Prop)
    (post : α -> α' -> Prop)
    (work : Work α)
    (work' : Work α') : Prop :=
  ∀ memory memory', related memory.cache memory'.cache ->
    (work.outcome memory).1.IsWithinDepth ->
      (work'.outcome memory').1.IsWithinDepth ->
      Result.Both
        (fun a a' => post a a' ∧
          related (work.outcome memory).2.cache (work'.outcome memory').2.cache)
        (work.outcome memory).1 (work'.outcome memory').1

namespace Lockstep

theorem mono
    {post post' : α -> α' -> Prop}
    {work : Work α}
    {work' : Work α'}
    (lockstep : Lockstep related post work work')
    (weaker : ∀ a a', post a a' -> post' a a') :
    Lockstep related post' work work' :=
  fun memory memory' start within within' =>
    (lockstep memory memory' start within within').mono
      fun a a' _ _ ⟨good, left⟩ =>
      ⟨weaker a a' good, left⟩

theorem lift
    {post : α -> α' -> Prop}
    {result : Result α}
    {result' : Result α'}
    (both : Result.Both post result result') :
    Lockstep related post (liftM result) (liftM result') :=
  fun _ _ start _ _ => both.mono fun _ _ _ _ good => ⟨good, start⟩

theorem pure
    {post : α -> α' -> Prop}
    {a : α}
    {a' : α'}
    (good : post a a') :
    Lockstep related post (Pure.pure a) (Pure.pure a') :=
  fun _ _ start _ _ => ⟨good, start⟩

theorem throw
    {failure failure' : Error}
    (alike : failure.Alike failure')
    (post : α -> α' -> Prop) :
    Lockstep related post (MonadExcept.throw failure)
      (MonadExcept.throw failure') :=
  fun _ _ _ _ _ => alike

/-- Nothing is said about computations that nest too deeply. -/
theorem throw_left
    (limit : Int)
    (tree : Option Expr)
    (post : α -> α' -> Prop)
    (work' : Work α') :
    Lockstep related post (MonadExcept.throw (.divergence .depth limit tree))
      work' :=
  fun _ _ _ within _ => absurd rfl (within limit tree)

/-- Running out of levels is in step with everything. -/
theorem throw_right
    (limit : Int)
    (tree : Option Expr)
    (post : α -> α' -> Prop)
    (work : Work α) :
    Lockstep related post work
      (MonadExcept.throw (.divergence .depth limit tree)) :=
  fun _ _ _ _ within' => absurd rfl (within' limit tree)

/-- The rule for a sequence of two computations. -/
theorem bind
    {work : Work α}
    {work' : Work α'}
    {next : α -> Work β}
    {next' : α' -> Work β'}
    {middle : α -> α' -> Prop}
    {post : β -> β' -> Prop}
    (first : Lockstep related middle work work')
    (second : ∀ a a', middle a a' ->
      Lockstep related post (next a) (next' a')) :
    Lockstep related post (work >>= next) (work' >>= next') := by
  intro memory memory' start within within'
  have firstBoth := first memory memory' start
  rw [outcome_bind] at within within' ⊢
  rw [outcome_bind]
  generalize work.outcome memory = reached at firstBoth within ⊢
  generalize work'.outcome memory' = reached' at firstBoth within' ⊢
  obtain ⟨result, after⟩ := reached
  obtain ⟨result', after'⟩ := reached'
  have withinFirst : result.IsWithinDepth := by
    rintro limit tree rfl
    exact within limit tree rfl
  have withinFirst' : result'.IsWithinDepth := by
    rintro limit tree rfl
    exact within' limit tree rfl
  have both := firstBoth withinFirst withinFirst'
  cases result <;> cases result'
  · exact both
  · exact both.elim
  · exact both.elim
  · exact second _ _ both.1 after after' both.2 within within'

/-- A sequence that starts in the same way on both sides, without the memory. -/
theorem lift_bind
    {result : Result α}
    {next : α -> Work β}
    {next' : α -> Work β'}
    {post : β -> β' -> Prop}
    (second : ∀ a, result = .ok a -> Lockstep related post (next a) (next' a)) :
    Lockstep related post (liftM result >>= next) (liftM result >>= next') := by
  have same : Result.Both (fun a a' => a = a' ∧ result = .ok a) result result :=
    .refl fun _ returned => ⟨rfl, returned⟩
  refine bind (lift same) ?_
  rintro a _ ⟨rfl, returned⟩
  exact second a returned

theorem map
    {work : Work α}
    {work' : Work α'}
    {f : α -> β}
    {f' : α' -> β'}
    {post : β -> β' -> Prop}
    (lockstep : Lockstep related (fun a a' => post (f a) (f' a')) work work') :
    Lockstep related post (f <$> work) (f' <$> work') := by
  rw [map_eq_pure_bind, map_eq_pure_bind]
  exact bind lockstep fun _ _ good => pure good

theorem note (event event' : Event) :
    Lockstep related (fun _ _ => True) (Work.note event) (Work.note event') :=
  fun _ _ start _ _ => ⟨trivial, start⟩

/-- What isolated computations remember is given up on both sides. -/
theorem isolated
    {work : Work α}
    {work' : Work α'}
    {post : α -> α' -> Prop}
    (lockstep : Lockstep related post work work') :
    Lockstep related post (Work.isolated work) (Work.isolated work') := by
  intro memory memory' start within within'
  rw [outcome_isolated] at within within' ⊢
  rw [outcome_isolated]
  exact (lockstep memory memory' start within within').mono fun _ _ _ _ both =>
    ⟨both.1, start⟩

end Lockstep
end Work
end Symbolic
