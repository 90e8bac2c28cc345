import Symbolic.Proofs.NestingLevels

/-!
# The engine keeps what a pass keeps

A simplification recalls, repeats passes, breaks cycles and remembers, and it
calls itself on operands.  `Engine.Law` lists what has to be known of a single
pass and of searches in the memory so that all of this is correct: a relation
`answers` between trees and their results that passes establish, and an
invariant of the memory under which searches find nothing else.  From it
follows, by induction on the levels that are left and on the passes, that every
simplification establishes the relation and keeps the invariant, also when it
fails.

`Engine.Sound` is the case in which the invariant is about single remembered
results.
-/

namespace Symbolic

/-- The contexts that are reached from a fresh one by any number of calls on
admitted trees, whether the calls return or fail. -/
inductive Context.Reached (settings : Settings) (admits : Expr -> Prop) :
    Context -> Prop where
  | fresh : Reached settings admits (.ofSettings settings)
  | call {context : Context} {e : Expr} :
    Reached settings admits context -> admits e ->
      Reached settings admits (context.run (context.simplify e)).2.1

namespace Engine

/-- What a recursive simplification of operands has to establish, and what of
the memory it has to keep. -/
def RecursiveIn
    (invariant : Cache -> Prop)
    (admits : Expr -> Prop)
    (answers : Expr -> Expr -> Prop)
    (recursion : Recursion) : Prop :=
  ∀ e, admits e -> (recursion e).Keeps invariant (answers e)

/-- The facts about one pass and about searches on which the correctness of the
engine rests.  `admits` are the trees that may be simplified, `runs` those that
a pass may be made over, and `answers` relates trees to their results. -/
structure Law
    (settings : Settings)
    (invariant : Cache -> Prop)
    (admits runs : Expr -> Prop)
    (answers : Expr -> Expr -> Prop) : Prop where
  /-- A leaf is its own result. -/
  leaf : ∀ e, admits e -> e.isCompound = false -> answers e e
  /-- A wrapper has the results of what it encloses. -/
  wrap : ∀ inner, admits (.wrap inner) ->
    admits inner ∧ ∀ result, answers inner result ->
      answers (.wrap inner) result
  /-- A pass may be made over a tree that may be simplified. -/
  runs_of_admits : ∀ e, admits e -> runs e
  /-- An exact search for a node finds a result of it. -/
  finds : ∀ operation left right key, admits (.node operation left right) ->
    (Expr.node operation left right).fingerprint = .ok key ->
      (Work.findEqual key (.node operation left right)).Keeps invariant
        fun found =>
        ∀ result, found = some result ->
          answers (.node operation left right) result
  /-- So does a search that may be tolerant. -/
  retrieves : ∀ operation left right key, admits (.node operation left right) ->
    (Expr.node operation left right).fingerprint = .ok key ->
      (Work.retrieve settings key (.node operation left right)).Keeps invariant
        fun found =>
        ∀ result, found = some result ->
          answers (.node operation left right) result
  /-- The result of a node may be remembered. -/
  remembers : ∀ operation left right key result atFront,
    admits (.node operation left right) ->
    (Expr.node operation left right).fingerprint = .ok key ->
      answers (.node operation left right) result ->
        (Work.remember key (.node operation left right) result atFront).Keeps
          invariant fun _ => True
  /-- Results of results are results. -/
  trans : ∀ e e' result, answers e e' -> answers e' result -> answers e result
  /-- A pass gives a result, which is a possible result of itself if another
  pass is to follow. -/
  pass : ∀ recursion, RecursiveIn invariant admits answers recursion ->
    ∀ operation left right, runs (.node operation left right) ->
      (Pass.run settings recursion (.node operation left right)).Keeps invariant
        fun pass => answers (.node operation left right) pass.result ∧
          (pass.isChanged = true -> admits pass.result ∧
            answers pass.result pass.result ∧
            ∃ operation' left' right', pass.result =
              .node operation' left' right')

namespace Law

variable {settings : Settings} {invariant : Cache -> Prop}
  {admits runs : Expr -> Prop}
  {answers : Expr -> Expr -> Prop}
  (law : Law settings invariant admits runs answers)

include law

/-- Pass after pass, the result is one for the tree that the passes started
from. -/
theorem iterate_keeps
    {recursion : Recursion}
    (recursive : RecursiveIn invariant admits answers recursion)
    (source : Expr)
    (passes : Nat)
    {operation : Operation}
    {left right : Expr}
    (runnable : runs (.node operation left right)) :
    (iterate settings recursion source passes
      (.node operation left right)).Keeps invariant
      (answers (.node operation left right)) := by
  induction passes generalizing operation left right with
  | zero => exact Work.Keeps.throw _ _
  | succ passes inductive_step =>
    rw [iterate]
    refine Work.Keeps.bind
      (law.pass recursion recursive operation left right runnable) ?_
    rintro ⟨candidate, isChanged⟩ ⟨answered, changed⟩
    split
    · next again =>
      obtain ⟨admitted, candidateAnswers, operation', left', right', rfl⟩ :=
        changed again
      refine Work.Keeps.bind (Work.Keeps.lift fun _ hashed => hashed)
        fun key hashed => ?_
      refine Work.Keeps.bind
        (law.finds operation' left' right' key admitted hashed)
        fun found isResult => ?_
      cases found with
      | some previous =>
        refine Work.Keeps.bind (Work.Keeps.note _) fun _ _ => Work.Keeps.pure ?_
        exact law.trans _ _ _ answered (isResult previous rfl)
      | none =>
        refine Work.Keeps.bind (Work.Keeps.note _) fun _ _ =>
          Work.Keeps.isolated ?_
        refine Work.Keeps.bind
          (law.remembers _ _ _ key _ false admitted hashed candidateAnswers)
          fun _ _ => ?_
        exact Work.Keeps.mono (inductive_step (law.runs_of_admits _ admitted))
          fun result resultAnswered => law.trans _ _ _ answered resultAnswered
    · exact Work.Keeps.pure answered

/-- A node is recalled or simplified by passes, and its result is remembered. -/
theorem simplifyNode_keeps
    {recursion : Recursion}
    (recursive : RecursiveIn invariant admits answers recursion)
    {operation : Operation}
    {left right : Expr}
    (admitted : admits (.node operation left right)) :
    (simplifyNode settings recursion (.node operation left right)).Keeps
      invariant (answers (.node operation left right)) := by
  unfold simplifyNode
  refine Work.Keeps.bind (Work.Keeps.lift fun _ hashed => hashed)
    fun key hashed => ?_
  refine Work.Keeps.bind (law.retrieves _ _ _ key admitted hashed)
    fun found isResult => ?_
  cases found with
  | some result =>
    exact Work.Keeps.bind (Work.Keeps.note _) fun _ _ =>
      Work.Keeps.pure (isResult result rfl)
  | none =>
    refine Work.Keeps.bind
      (law.iterate_keeps recursive _ _ (law.runs_of_admits _ admitted))
      fun result answered => ?_
    exact Work.Keeps.bind
      (law.remembers _ _ _ key result true admitted hashed answered)
      fun _ _ => Work.Keeps.pure answered

/-- Every simplification of an admitted tree gives a result of it and keeps the
invariant. -/
theorem simplifyAt_keeps
    (levels : Nat) :
    RecursiveIn invariant admits answers (simplifyAt settings levels) := by
  induction levels with
  | zero =>
    intro e _
    exact Work.Keeps.throw _ _
  | succ levels inductive_step =>
    intro e admitted
    cases e with
    | wrap inner =>
      obtain ⟨innerAdmitted, carries⟩ := law.wrap inner admitted
      exact Work.Keeps.mono (inductive_step inner innerAdmitted) carries
    | node operation left right =>
      exact law.simplifyNode_keeps inductive_step admitted
    | foreign object => exact Work.Keeps.throw _ _
    | blank => exact Work.Keeps.pure (law.leaf _ admitted rfl)
    | const value => exact Work.Keeps.pure (law.leaf _ admitted rfl)
    | var name => exact Work.Keeps.pure (law.leaf _ admitted rfl)

/-- What an admitted tree is simplified to without a memory is a result of
it. -/
theorem answers_of_simplified
    (holds : invariant [])
    {e result : Expr}
    (admitted : admits e)
    (returned : simplified settings e = .ok result) :
    answers e result := by
  rw [simplified_eq] at returned
  exact (law.simplifyAt_keeps _ e admitted .empty holds).2 result returned

end Law

/-- What a recursive simplification of operands has to establish when the memory
is judged by its single results. -/
def Recursive
    (entryHolds : Fingerprint -> Remembered -> Prop)
    (admits : Expr -> Prop)
    (answers : Expr -> Expr -> Prop)
    (recursion : Recursion) : Prop :=
  ∀ e, admits e -> (recursion e).Keeps (Cache.Holds entryHolds) (answers e)

/-- The facts about one pass and about remembered results on which the
correctness of the engine rests.  `admits` are the trees that may be simplified
and `answers` relates them to their results. -/
structure Sound
    (settings : Settings)
    (entryHolds : Fingerprint -> Remembered -> Prop)
    (admits : Expr -> Prop)
    (answers : Expr -> Expr -> Prop) : Prop where
  /-- A leaf is its own result. -/
  leaf : ∀ e, admits e -> e.isCompound = false -> answers e e
  /-- A wrapper has the results of what it encloses. -/
  wrap : ∀ inner, admits (.wrap inner) ->
    admits inner ∧ ∀ result, answers inner result ->
      answers (.wrap inner) result
  /-- A remembered result may be taken for a node that finds it. -/
  recalls : ∀ e key entry, admits e -> e.isCompound = true ->
    e.fingerprint = .ok key ->
    entryHolds key entry ->
      entry.source.equal e = .ok true ∨ settings.reusesCollisions = true ->
        answers e entry.result
  /-- The result of a node may be remembered. -/
  remembers : ∀ e key result, admits e -> e.isCompound = true ->
    e.fingerprint = .ok key ->
    answers e result -> entryHolds key ⟨e, result⟩
  /-- Results of results are results. -/
  trans : ∀ e e' result, answers e e' -> answers e' result -> answers e result
  /-- A pass gives a result, which is a possible result of itself if another
  pass is to follow. -/
  pass : ∀ recursion, Recursive entryHolds admits answers recursion ->
    ∀ operation left right, admits (.node operation left right) ->
      (Pass.run settings recursion (.node operation left right)).Keeps
        (Cache.Holds entryHolds)
        fun pass => answers (.node operation left right) pass.result ∧
          (pass.isChanged = true -> admits pass.result ∧
            answers pass.result pass.result ∧
            ∃ operation' left' right', pass.result =
              .node operation' left' right')

namespace Sound

variable {settings : Settings} {entryHolds : Fingerprint -> Remembered -> Prop}
  {admits : Expr -> Prop} {answers : Expr -> Expr -> Prop}
  (sound : Sound settings entryHolds admits answers)

include sound

/-- A search finds the results of remembered trees, and remembering a result
adds one. -/
theorem law : Law settings (Cache.Holds entryHolds) admits admits answers where
  leaf := sound.leaf
  wrap := sound.wrap
  runs_of_admits := fun _ admitted => admitted
  finds := by
    intro operation left right key admitted hashed
    refine Work.Keeps.findEqual (by simp) ?_
    rintro entry holds equal _ ⟨⟩
    exact sound.recalls _ key entry admitted rfl hashed holds (.inl equal)
  retrieves := by
    intro operation left right key admitted hashed
    refine Work.Keeps.retrieve (by simp) ?_
    rintro entry holds match_ _ ⟨⟩
    exact sound.recalls _ key entry admitted rfl hashed holds match_
  remembers := fun _ _ _ key result atFront admitted hashed answered =>
    Work.Keeps.remember
      (sound.remembers _ key result admitted rfl hashed answered) atFront
  trans := sound.trans
  pass := sound.pass

/-- Every simplification of an admitted tree gives a result of it and leaves a
sound memory. -/
theorem simplifyAt_keeps
    (levels : Nat) :
    Recursive entryHolds admits answers (simplifyAt settings levels) :=
  sound.law.simplifyAt_keeps levels

/-- One call in a context whose memory is sound: the result is one for the tree,
and the context it leaves is sound again. -/
theorem run_simplify
    (context : Context)
    (ofSettings : context.settings = settings)
    (holds : context.cache.Holds entryHolds)
    {e : Expr}
    (admitted : admits e) :
    (context.run (context.simplify e)).2.1.cache.Holds entryHolds ∧
      ∀ result, (context.run (context.simplify e)).1 = .ok result ->
        answers e result := by
  subst ofSettings
  rw [Context.run_simplify]
  exact sound.simplifyAt_keeps context.levels e admitted _ holds

/-- The memory of every reached context is sound. -/
theorem holds_of_reached
    {context : Context}
    (reached : context.Reached settings admits) :
    context.settings = settings ∧ context.cache.Holds entryHolds := by
  induction reached with
  | fresh => exact ⟨rfl, Cache.holds_nil entryHolds⟩
  | @call context e _ admitted inductive_step =>
    obtain ⟨ofSettings, holds⟩ := inductive_step
    exact ⟨ofSettings, (sound.run_simplify context ofSettings holds admitted).1⟩

/-- Every call in a reached context that returns gives a result of its tree. -/
theorem answers_of_reached
    {context : Context}
    (reached : context.Reached settings admits)
    {e result : Expr}
    (admitted : admits e)
    (returned : (context.run (context.simplify e)).1 = .ok result) :
    answers e result := by
  obtain ⟨ofSettings, holds⟩ := sound.holds_of_reached reached
  exact (sound.run_simplify context ofSettings holds admitted).2 result returned

end Sound
end Engine
end Symbolic
