import Symbolic.Proofs.FaithfulMemory

/-!
# The memory does not change an answer

A simplification recalls what it has remembered, and for a while it remembers
trees that are no results: those of passes that are not finished.
`simplifyAt_answers` says that none of this shows.  A standard tree that can be
recomputed without memory is simplified to just that answer, at every level,
unless the run is obstructed.

The proof is an induction on the fuel that a tree takes.  A pass without memory
is the guide of the pass with memory: the latter does the same, and all that it
asks for takes less fuel.
-/

namespace Symbolic

open Cache (Learns)
open Work (Grows)

/-! ## Runs that arrive at an answer -/

namespace Work

variable {α β : Type} {settings : Settings} {fuel : Nat} {exempt : Expr -> Prop}

theorem outcome_retrieve_of_found
    {e r : Expr}
    {memory : Memory}
    (found : memory.cache.search e = .ok (some r)) :
    (retrieve settings e.tokens e).outcome memory = (.ok (some r), memory) := by
  rw [Cache.search] at found
  unfold retrieve
  rw [outcome_bind, outcome_findEqual, found]
  rfl

theorem outcome_retrieve_of_missed
    {e : Expr}
    {memory : Memory}
    (missed : memory.cache.search e = .ok none) :
    (retrieve settings e.tokens e).outcome memory = (.ok none, memory) ∨
      settings.reusesCollisions = true ∧ ∃ reused,
        (retrieve settings e.tokens e).outcome memory =
          (.ok (some reused), { memory with events := .collision e reused :: memory.events }) := by
  rw [Cache.search] at missed
  unfold retrieve
  rw [outcome_bind, outcome_findEqual, missed]
  simp only [outcome_bind, outcome_get]
  cases memory.cache.bucket e.tokens with
  | nil => exact .inl rfl
  | cons first rest =>
    cases tolerant : settings.reusesCollisions with
    | true => exact .inr ⟨rfl, first.result, rfl⟩
    | false => exact .inl rfl

/-- From a faithful memory a computation returns the given result, and the
memory learns, unless the run is obstructed. -/
structure Arrives
    (settings : Settings)
    (fuel : Nat)
    (exempt : Expr -> Prop)
    (work : Work α)
    (a : α) : Prop where
  grows : Grows work
  returns : ∀ memory, memory.cache.IsFaithful settings fuel ->
    Obstructed settings (work.outcome memory) ∨
      (work.outcome memory).1 = .ok a ∧
      memory.cache.Learns settings fuel exempt (work.outcome memory).2.cache

namespace Arrives

theorem pure (a : α) : Arrives settings fuel exempt (Pure.pure a) a :=
  ⟨.lift (.ok a), fun _ _ => .inr ⟨rfl, .refl _⟩⟩

theorem lift
    {result : Result α}
    {a : α}
    (returned : result = .ok a) :
    Arrives settings fuel exempt (liftM result) a :=
  ⟨.lift result, fun _ _ => .inr ⟨returned, .refl _⟩⟩

theorem note (event : Event) :
    Arrives settings fuel exempt (Work.note event) () :=
  ⟨.note event, fun _ _ => .inr ⟨rfl, .refl _⟩⟩

theorem remember
    {source : Expr}
    (standard : source.IsStandard)
    (key : Fingerprint)
    (result : Expr)
    (atFront : Bool) :
    Arrives settings fuel (· = source)
      (Work.remember key source result atFront) () :=
  ⟨.remember _ _ _ _, fun _ _ =>
    .inr ⟨rfl, .insert standard key result atFront⟩⟩

/-- What exceeds a limit arrives at anything. -/
theorem throw
    {failure : Error}
    (isDivergence : failure.IsDivergence)
    (a : α) :
    Arrives settings fuel exempt (MonadExcept.throw failure) a :=
  ⟨.lift (.error failure), fun _ _ => .inl (.inl ⟨failure, rfl, isDivergence⟩)⟩

theorem mono
    {fuel' : Nat}
    {exempt' : Expr -> Prop}
    {work : Work α}
    {a : α}
    (arrives : Arrives settings fuel exempt work a)
    (more : fuel ≤ fuel')
    (weaker : ∀ e, exempt e -> exempt' e) :
    Arrives settings fuel' exempt' work a :=
  ⟨arrives.grows, fun memory faithful =>
    (arrives.returns memory (faithful.mono more)).imp_right
    (And.imp_right fun learns => learns.mono more weaker)⟩

/-- Nothing that an isolated computation remembers is kept. -/
theorem isolated
    {fuel' : Nat}
    {exempt' : Expr -> Prop}
    {work : Work α}
    {a : α}
    (arrives : Arrives settings fuel exempt work a)
    (more : fuel ≤ fuel') :
    Arrives settings fuel' exempt' (Work.isolated work) a :=
  ⟨arrives.grows.isolated, fun memory faithful =>
    (arrives.returns memory (faithful.mono more)).imp
    Obstructed.isolated fun returned => ⟨returned.1, .refl _⟩⟩

theorem lift_bind
    {result : Result α}
    {a : α}
    (returned : result = .ok a)
    {next : α -> Work β}
    {b : β}
    (arrives : Arrives settings fuel exempt (next a) b) :
    Arrives settings fuel exempt (liftM result >>= next) b := by
  subst returned
  exact arrives

theorem note_bind
    (event : Event)
    {next : Unit -> Work β}
    {b : β}
    (arrives : Arrives settings fuel exempt (next ()) b) :
    Arrives settings fuel exempt (Work.note event >>= next) b :=
  ⟨.bind (.note event) fun _ => arrives.grows, fun memory faithful =>
    arrives.returns { memory with events := event :: memory.events } faithful⟩

/-- An exact search finds the answer, or nothing. -/
theorem findEqual_bind
    {e r : Expr}
    (standard : e.IsStandard)
    (recomputed : recompute settings fuel e = .ok r)
    {next : Option Expr -> Work β}
    {b : β}
    (missed : Arrives settings fuel exempt (next none) b)
    (found : Arrives settings fuel exempt (next (some r)) b)
    (nextGrows : ∀ answer, Grows (next answer)) :
    Arrives settings fuel exempt (Work.findEqual e.tokens e >>= next) b := by
  refine ⟨.bind (fun _ => List.suffix_rfl) nextGrows, fun memory faithful => ?_⟩
  rw [outcome_bind, outcome_findEqual]
  rcases faithful e r standard recomputed with nothing | something
  · rw [Cache.search] at nothing
    rw [nothing]
    exact missed.returns memory faithful
  · rw [Cache.search] at something
    rw [something]
    exact found.returns memory faithful

/-- A search that may be tolerant finds the answer, or nothing, or the run is
obstructed. -/
theorem retrieve_bind
    {e r : Expr}
    (standard : e.IsStandard)
    (recomputed : recompute settings fuel e = .ok r)
    {next : Option Expr -> Work β}
    {b : β}
    (missed : Arrives settings fuel exempt (next none) b)
    (found : Arrives settings fuel exempt (next (some r)) b)
    (nextGrows : ∀ answer, Grows (next answer)) :
    Arrives settings fuel exempt (Work.retrieve settings e.tokens e >>=
      next) b := by
  refine ⟨.bind (.retrieve settings e.tokens e) nextGrows,
    fun memory faithful => ?_⟩
  rcases faithful e r standard recomputed with nothing | something
  · rcases outcome_retrieve_of_missed nothing with
      retrieved | ⟨tolerant, reused, retrieved⟩
    · rw [outcome_bind, retrieved]
      exact missed.returns memory faithful
    · refine .inl (Obstructed.bind (.inr ⟨tolerant, e, reused, ?_⟩) nextGrows)
      rw [retrieved]
      exact List.mem_cons_self
  · rw [outcome_bind, outcome_retrieve_of_found something]
    exact found.returns memory faithful

/-- When its answer is remembered, a tree is no longer exempt. -/
theorem settle
    {source r : Expr}
    (standard : source.IsStandard)
    (recomputed : recompute settings fuel source = .ok r)
    {work : Work Expr}
    (arrives : Arrives settings fuel (· = source) work r) :
    Arrives settings fuel (fun _ => False) (do
      let result ← work
      Work.remember source.tokens source result true
      return result) r := by
  have laterGrows (result : Expr) : Grows (do
      Work.remember source.tokens source result true
      return result) :=
    .bind (.remember _ _ _ _) fun _ => .lift (.ok result)
  refine ⟨.bind arrives.grows laterGrows, fun memory faithful => ?_⟩
  rcases arrives.returns memory faithful with obstructed | ⟨returned, learns⟩
  · exact .inl (obstructed.bind laterGrows)
  · rw [outcome_bind]
    generalize work.outcome memory = reached at returned learns
    obtain ⟨result, after⟩ := reached
    cases returned
    exact .inr ⟨rfl, learns.settle standard recomputed⟩

variable (takeMore : ∀ e, exempt e -> TakesMore settings fuel e)

include takeMore

/-- The rule for a sequence. -/
theorem bind
    {work : Work α}
    {next : α -> Work β}
    {a : α}
    {b : β}
    (arrives : Arrives settings fuel exempt work a)
    (nextArrives : Arrives settings fuel exempt (next a) b)
    (nextGrows : ∀ a, Grows (next a)) :
    Arrives settings fuel exempt (work >>= next) b := by
  refine ⟨.bind arrives.grows nextGrows, fun memory faithful => ?_⟩
  rcases arrives.returns memory faithful with obstructed | ⟨returned, learns⟩
  · exact .inl (obstructed.bind nextGrows)
  · have later := nextArrives.returns _ (learns.isFaithful takeMore faithful)
    rw [outcome_bind]
    generalize work.outcome memory = reached at returned learns later
    obtain ⟨result, after⟩ := reached
    cases returned
    exact later.imp_right (And.imp_right learns.trans)

end Arrives

/-- The second computation arrives at whatever the first one returns. -/
structure Follows
    (settings : Settings)
    (fuel : Nat)
    (exempt : Expr -> Prop)
    (guide work : Work α) : Prop where
  grows : Grows work
  arrives : ∀ memory a, (guide.outcome memory).1 = .ok a ->
    Arrives settings fuel exempt work a

/-- To follow another computation is respected by the ways of building
computations. -/
def following
    (settings : Settings)
    (fuel : Nat)
    (exempt : Expr -> Prop)
    (takeMore : ∀ e, exempt e -> TakesMore settings fuel e) : Congruence where
  Related := Follows settings fuel exempt
  lift := fun result => ⟨.lift result, fun _ _ returned => .lift returned⟩
  note := fun event => ⟨.note event, fun _ _ _ => .note event⟩
  bind := by
    intro α β guide work guideNext next follows nextFollows
    refine ⟨.bind follows.grows fun a => (nextFollows a).grows,
      fun memory b returned => ?_⟩
    obtain ⟨a, first, later⟩ := outcome_bind_eq_ok.1 returned
    exact .bind takeMore (follows.arrives memory a first)
      ((nextFollows a).arrives _ b later) fun a => (nextFollows a).grows

end Work

/-! ## A pass only asks for trees of the class -/

/-- Simplify the trees of a class.  For any other tree a result that is none is
filed, so that the memory shows that there was one. -/
noncomputable def Recursion.guarded (good : Expr -> Prop)
  (recursion : Recursion) : Recursion :=
  open Classical in fun e =>
    if good e then recursion e
    else do
      Work.remember [] e (.wrap e) false
      throw .noOperation

namespace Work

variable {α β : Type} {invariant : Cache -> Prop}

/-- The second computation does what the first one does, or fails and breaks an
invariant. -/
def EqualOrBroken (invariant : Cache -> Prop) (work guarded : Work α) : Prop :=
  ∀ memory, guarded.outcome memory = work.outcome memory ∨
    (∃ failure, (guarded.outcome memory).1 = .error failure) ∧
      ¬ invariant (guarded.outcome memory).2.cache

theorem EqualOrBroken.bind
    {work guarded : Work α}
    {next next' : α -> Work β}
    (either : EqualOrBroken invariant work guarded)
    (nextEither : ∀ a, EqualOrBroken invariant (next a) (next' a)) :
    EqualOrBroken invariant (work >>= next) (guarded >>= next') := by
  intro memory
  rw [outcome_bind, outcome_bind]
  rcases either memory with same | ⟨failed, broken⟩
  · rw [same]
    generalize work.outcome memory = reached
    obtain ⟨result, after⟩ := reached
    cases result with
    | ok a => exact nextEither a after
    | error failure => exact .inl rfl
  · generalize guarded.outcome memory = reached at failed broken
    obtain ⟨result, after⟩ := reached
    obtain ⟨failure, rfl⟩ := failed
    exact .inr ⟨⟨failure, rfl⟩, broken⟩

/-- Breaking an invariant is respected by the ways of building computations. -/
def breaking (invariant : Cache -> Prop) : Congruence where
  Related := EqualOrBroken invariant
  lift := fun _ _ => .inl rfl
  note := fun _ _ => .inl rfl
  bind := .bind

end Work

namespace TreeClass

variable {good clean : Expr -> Prop} (treeClass : TreeClass good clean)

include treeClass

theorem guarded_breaks (recursion : Recursion) (e : Expr) :
    Work.EqualOrBroken (Cache.Holds fun _ entry => clean entry.result)
      (recursion e) (recursion.guarded good e) := by
  intro memory
  unfold Recursion.guarded
  split
  · exact .inl rfl
  · have filed : (⟨e, .wrap e⟩ : Remembered) ∈
        (memory.cache.insert [] ⟨e, .wrap e⟩ false).bucket [] := by
      simp [Cache.bucket_insert_self]
    exact .inr ⟨⟨.noOperation, rfl⟩,
      fun holds => treeClass.notWrap e (holds [] _ filed)⟩

/-- A pass over a tree of a class is the same if other trees are not
simplified. -/
theorem outcome_run_guarded
    {settings : Settings}
    (standard : settings.registry = .standard)
    {recursion : Recursion}
    (recursive :
      Engine.RecursiveIn (Cache.Holds fun _ entry => clean entry.result) good
      (CleanResult clean) recursion)
    {operation : Operation}
    {left right : Expr}
    (isGood : good (.node operation left right))
    {memory : Memory}
    (holds : memory.cache.Holds fun _ entry => clean entry.result) :
    (Pass.run settings (recursion.guarded good)
      (.node operation left right)).outcome memory =
      (Pass.run settings recursion (.node operation left right)).outcome
        memory := by
  have guardedRecursive :
      Engine.RecursiveIn (Cache.Holds fun _ entry => clean entry.result) good
      (CleanResult clean) (recursion.guarded good) := by
    intro e eGood
    rw [Recursion.guarded, if_pos eGood]
    exact recursive e eGood
  have keeps := treeClass.run_keeps standard guardedRecursive
    (fun _ _ _ isClean => Work.Keeps.remember isClean false)
      (treeClass.arithmetic _ _ _ isGood)
    (treeClass.operands _ _ _ isGood).1 (treeClass.operands _ _ _ isGood).2
  have related :
      (Work.breaking (Cache.Holds fun _ entry => clean entry.result)).Related
      (Pass.run settings recursion (.node operation left right))
      (Pass.run settings (recursion.guarded good)
        (.node operation left right)) :=
    Pass.run_related _ rfl (treeClass.guarded_breaks recursion) fun _ _ =>
      .inl rfl
  rcases related memory with same | ⟨-, broken⟩
  · exact same
  · exact absurd (keeps memory holds).1 broken

end TreeClass

/-! ## The engine -/

section Engine

variable {settings : Settings} (standard : settings.registry = .standard)
  {fuel : Nat} {recursion : Recursion}

/-- A simplification arrives at the answers that take at most the given fuel. -/
structure Recursion.Answers
    (settings : Settings)
    (fuel : Nat)
    (recursion : Recursion) : Prop where
  grows : ∀ e, Grows (recursion e)
  arrives : ∀ e r, e.IsStandard -> recompute settings fuel e = .ok r ->
    Work.Arrives settings fuel (fun _ => False) (recursion e) r

include standard

/-- A pass arrives at what the pass without memory comes to. -/
theorem Pass.run_arrives
    (answers : recursion.Answers settings fuel)
    {operation : Operation}
    {left right : Expr}
    (isStandard : (Expr.node operation left right).IsStandard)
    (takesMore : TakesMore settings fuel (.node operation left right))
    {pass : Pass}
    (ran : Pass.recomputed settings (recompute settings fuel)
      (.node operation left right) =
      .ok pass) :
    Work.Arrives settings fuel (· = .node operation left right)
      (Pass.run settings recursion (.node operation left right)) pass := by
  have takeMore : ∀ e, e = .node operation left right ->
      TakesMore settings fuel e := by
    rintro _ rfl
    exact takesMore
  have guides (e : Expr) :
      Work.Follows settings fuel (· = .node operation left right)
      (Recursion.guarded Expr.IsStandard
        (fun e => liftM (recompute settings fuel e)) e)
      (recursion e) := by
    refine ⟨answers.grows e, fun memory r returned => ?_⟩
    unfold Recursion.guarded at returned
    split at returned
    · next eStandard =>
      exact (answers.arrives e r eStandard returned).mono (Nat.le_refl fuel)
        fun _ => False.elim
    · cases returned
  have follows : (Work.following settings fuel _ takeMore).Related
      (Pass.run settings (Recursion.guarded Expr.IsStandard
        fun e => liftM (recompute settings fuel e))
          (.node operation left right))
      (Pass.run settings recursion (.node operation left right)) :=
    Pass.run_related _ rfl guides fun result =>
      ⟨.remember _ _ _ _, fun _ _ _ => .remember isStandard _ result false⟩
  refine follows.arrives .empty pass ?_
  rw [TreeClass.standard.outcome_run_guarded standard ?_ isStandard
    (Cache.holds_nil _)]
  · exact ran
  · exact fun e eStandard => Work.Keeps.lift fun r =>
      cleanResult_of_recompute standard eStandard

omit standard in
/-- Further passes arrive at the answer of a tree if they do so from the result
of a pass. -/
theorem afterPass_arrives
    (grows : ∀ e, Grows (recursion e))
    {current : Expr}
    {pass : Pass}
    {r : Expr}
    (resultStandard : pass.result.IsStandard)
    (recomputed :
      if pass.isChanged then recompute settings fuel pass.result = .ok r
      else pass.result = r)
    {source : Expr}
    {passes : Nat}
    (later : pass.isChanged = true ->
      ∀ less < fuel, TakesMore settings less pass.result ->
      recompute settings (less + 1) pass.result = .ok r ->
        Work.Arrives settings less (· = pass.result)
          (iterate settings recursion source passes pass.result) r) :
    Work.Arrives settings fuel (· = current)
      (afterPass settings recursion source passes current pass) r := by
  unfold afterPass
  split
  · next isChanged =>
    rw [if_pos isChanged] at recomputed
    obtain ⟨less, isLess, again, takesMore'⟩ := exists_least_fuel recomputed
    refine .lift_bind
      (Expr.fingerprint_eq_ok _ resultStandard.foreign?_eq_none) ?_
    refine .findEqual_bind resultStandard recomputed ?_ ?_ fun answer => ?_
    · have takeMore : ∀ e, e = pass.result -> TakesMore settings less e := by
        rintro _ rfl
        exact takesMore'
      refine .note_bind _
        (.isolated (.bind takeMore (.remember resultStandard _ _ false)
        (later isChanged less isLess takesMore' again) fun _ => ?_)
          (Nat.le_of_lt isLess))
      exact iterate_grows grows source passes pass.result
    · exact .note_bind _ (.pure r)
    · cases answer with
      | some previous => exact .bind (.note _) fun _ => .lift (.ok previous)
      | none =>
        refine .bind (.note _) fun _ =>
          .isolated (.bind (.remember _ _ _ _) fun _ => ?_)
        exact iterate_grows grows source passes pass.result
  · next isLast =>
    rw [if_neg isLast] at recomputed
    subst recomputed
    exact .pure _

/-- Pass after pass, a tree arrives at its answer. -/
theorem iterate_arrives
    (answers : ∀ fuel' ≤ fuel, recursion.Answers settings fuel')
    (source : Expr)
    (passes : Nat)
    {operation : Operation}
    {left right r : Expr}
    (isStandard : (Expr.node operation left right).IsStandard)
    (takesMore : TakesMore settings fuel (.node operation left right))
    (recomputed : recompute settings (fuel + 1) (.node operation left right) =
      .ok r) :
    Work.Arrives settings fuel (· = .node operation left right)
      (iterate settings recursion source passes (.node operation left right))
        r := by
  have grows := (answers 0 (Nat.zero_le fuel)).grows
  induction passes generalizing fuel operation left right with
  | zero =>
    exact .throw (show Error.IsDivergence (.divergence _ _ _) from trivial) r
  | succ passes inductive_step =>
    obtain ⟨pass, ran, later⟩ := recompute_node_eq_ok.1 recomputed
    have isClean := Pass.isClean_of_recomputed standard
      (fun e r eStandard => cleanResult_of_recompute standard eStandard)
        isStandard ran
    have takeMore : ∀ e, e = .node operation left right ->
        TakesMore settings fuel e := by
      rintro _ rfl
      exact takesMore
    rw [iterate_succ]
    refine .bind takeMore
      (Pass.run_arrives standard (answers fuel (Nat.le_refl fuel)) isStandard
      takesMore ran) ?_ fun pass => afterPass_grows
        (fun source => iterate_grows grows source passes) source _ pass
    refine afterPass_arrives grows isClean.1 later
      fun isChanged less isLess takesMore' again => ?_
    obtain ⟨operation', left', right', isNode⟩ := isClean.2 isChanged
    have resultStandard := isClean.1
    rw [isNode] at resultStandard takesMore' again ⊢
    exact inductive_step
      (fun fuel' fewer => answers fuel' (fewer.trans (Nat.le_of_lt isLess)))
      resultStandard takesMore' again

/-- Simplifying a node arrives at its answer, which is remembered. -/
theorem simplifyNode_arrives
    {less : Nat}
    (answers : ∀ fuel' ≤ less, recursion.Answers settings fuel')
    (isLess : less < fuel)
    {operation : Operation}
    {left right r : Expr}
    (isStandard : (Expr.node operation left right).IsStandard)
    (takesMore : TakesMore settings less (.node operation left right))
    (recomputed : recompute settings (less + 1) (.node operation left right) =
      .ok r) :
    Work.Arrives settings fuel (fun _ => False)
      (simplifyNode settings recursion (.node operation left right)) r := by
  have grows := (answers 0 (Nat.zero_le less)).grows
  have answered := recompute_mono (Nat.succ_le_of_lt isLess) recomputed
  unfold simplifyNode
  refine .lift_bind (Expr.fingerprint_eq_ok _ isStandard.foreign?_eq_none) ?_
  refine .retrieve_bind isStandard answered ?_ (.note_bind _ (.pure r))
    fun found => ?_
  · refine .settle isStandard answered
      (.mono ?_ (Nat.le_of_lt isLess) fun _ => id)
    exact iterate_arrives standard answers _ _ isStandard takesMore recomputed
  · cases found with
    | some remembered => exact .bind (.note _) fun _ => .lift (.ok remembered)
    | none =>
      refine .bind (iterate_grows grows _ _ _) fun result => ?_
      exact .bind (.remember _ _ _ _) fun _ => .lift (.ok result)

/-- At every level, a standard tree is simplified to the answer that it is
recomputed to. -/
theorem simplifyAt_answers (fuel levels : Nat) :
    Recursion.Answers settings fuel (simplifyAt settings levels) := by
  induction fuel using Nat.strongRecOn generalizing levels with
  | ind fuel inductive_step =>
    refine ⟨simplifyAt_grows levels, fun e r isStandard recomputed => ?_⟩
    obtain ⟨less, isLess, again, takesMore⟩ := exists_least_fuel recomputed
    cases levels with
    | zero =>
      exact .throw (show Error.IsDivergence (.divergence _ _ _) from trivial) r
    | succ levels =>
      cases e with
      | node operation left right =>
        exact simplifyNode_arrives standard
          (fun fuel' fewer => inductive_step fuel' (fewer.trans_lt isLess)
            levels) isLess isStandard
          takesMore again
      | wrap inner => exact isStandard.plain.elim
      | foreign object => exact isStandard.plain.elim
      | _ =>
        cases again
        exact .pure _

/-- Without limits in the way and without collisions, the memory does not show:
a standard tree that can be recomputed is simplified to the answer. -/
theorem simplified_of_recompute
    {fuel : Nat}
    {e r : Expr}
    (isStandard : e.IsStandard)
    (recomputed : recompute settings fuel e = .ok r) :
    Obstructed settings ((simplify settings e).outcome .empty) ∨
      simplified settings e = .ok r := by
  rw [simplified, outcome_simplify]
  exact (((simplifyAt_answers standard fuel _).arrives e r isStandard
    recomputed).returns .empty
    (Cache.isFaithful_nil settings fuel)).imp_right And.left

end Engine
end Symbolic
