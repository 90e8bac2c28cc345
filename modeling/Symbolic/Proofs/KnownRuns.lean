import Symbolic.Proofs.CollectEnds
import Symbolic.Proofs.TreeClass

/-!
# Runs with a known result

`Work.Returns invariant work a` says that a computation which starts with a
cache satisfying the invariant keeps it and returns `a`.  There is one rule for
each part of a simplification: a chain whose terms are integers and other trees,
the end of a pass, passes that settle on a tree, and a node that is recalled or
simplified.  With them the run over a tree of a given shape is followed step by
step.

What is recalled from the memory must be known.  That is left to the invariant,
which says for every fingerprint what the results under it are.
-/

namespace Symbolic
namespace Work

variable {α β : Type} {invariant : Cache -> Prop}

/-- A computation keeps an invariant of the cache and returns a certain
result. -/
abbrev Returns
    (invariant : Cache -> Prop)
    (work : Work α)
    (a : α) : Prop :=
  work.Ends invariant (fun _ => False) (· = a)

/-- The rule for a sequence that begins with a known result. -/
theorem Ends.next
    {work : Work α}
    {next : α -> Work β}
    {a : α}
    {post : β -> Prop}
    (first : Returns invariant work a)
    (second : (next a).Ends invariant (fun _ => False) post) :
    (work >>= next).Ends invariant (fun _ => False) post := by
  refine .bind first ?_
  rintro _ rfl
  exact second

namespace Returns

theorem lift
    {result : Result α}
    {a : α}
    (returned : result = .ok a) :
    Returns invariant (liftM result : Work α) a :=
  Ends.lift (.of_eq_ok returned rfl)

theorem note (event : Event) : Returns invariant (Work.note event) () :=
  (Ends.note event).mono fun _ _ => rfl

/-- What an isolated computation remembers may satisfy a weaker invariant, since
it is given up. -/
theorem isolated
    {inner : Cache -> Prop}
    {work : Work α}
    {a : α}
    (returns : Returns inner work a)
    (weaker : ∀ cache, invariant cache -> inner cache) :
    Returns invariant (Work.isolated work) a :=
  ⟨fun memory holds => ⟨holds, (returns.keeps memory (weaker _ holds)).2⟩,
    fun memory holds => returns.fails memory (weaker _ holds)⟩

theorem remember
    {entryHolds : Fingerprint -> Remembered -> Prop}
    {key : Fingerprint}
    {source result : Expr}
    (new : entryHolds key ⟨source, result⟩)
    (atFront : Bool) :
    Returns (Cache.Holds entryHolds)
      (Work.remember key source result atFront) () :=
  (Ends.remember new atFront).mono fun _ _ => rfl

end Returns
end Work

open Work (Returns)

/-! ## Chains of integers and other terms -/

/-- The terms of a chain are integers and terms that are no constants. -/
inductive Splits : List Expr -> List Int -> List Expr -> Prop where
  | nil : Splits [] [] []
  | int (n : Int) {terms : List Expr} {ints : List Int} {others : List Expr} :
    Splits terms ints others -> Splits (.int n :: terms) (n :: ints) others
  | other {e : Expr} {terms : List Expr} {ints : List Int} {others : List Expr} :
    e.hasOnlyConstants = false -> Splits terms ints others ->
      Splits (e :: terms) ints (e :: others)

theorem Splits.append
    {first second : List Expr}
    {ints ints' : List Int}
    {others others' : List Expr}
    (splits : Splits first ints others)
    (splits' : Splits second ints' others') :
    Splits (first ++ second) (ints ++ ints') (others ++ others') := by
  induction splits with
  | nil => exact splits'
  | int n _ inductive_step => exact .int n inductive_step
  | other noConstant _ inductive_step => exact .other noConstant inductive_step

/-- Integers are joined to their sum. -/
theorem Operation.joinAll_ints
    {ints : List Int}
    (present : ints ≠ []) :
    sum.joinAll (ints.map Expr.int) = .ok (.int ints.sum) := by
  have allInts : ∀ e ∈ ints.map Expr.int, ∃ n : Int, e = .int n := by
    intro e member
    obtain ⟨n, -, rfl⟩ := List.mem_map.1 member
    exact ⟨n, rfl⟩
  have joins : ∀ a b : Expr, (∃ n : Int, a = .int n) ->
      (∃ n : Int, b = .int n) ->
      (sum.join a b).Ends (fun _ => False) fun e => ∃ n : Int, e = .int n := by
    rintro _ _ ⟨m, rfl⟩ ⟨n, rfl⟩
    exact ⟨m + n, rfl⟩
  have ends := joinAll_ends joins (by simpa using present) allInts
  cases joined : sum.joinAll (ints.map Expr.int) with
  | ok e =>
    obtain ⟨n, rfl⟩ := ends.returned joined
    have value :=
      ((Reading.integers fun _ => 0).value_joinAll_sum joinClosed_literals_sum
        allInts joined).2
    have same :
        (ints.map Expr.int).map (Reading.integers fun _ => 0).value = ints := by
      rw [List.map_map]
      exact List.map_id _
    rw [same] at value
    exact congrArg (fun n : Int => Except.ok (Expr.int n)) value
  | error failure => exact (ends.failed joined).elim

namespace Pass

section Chain

variable {focus promoted : Operation} {inverse : Inverse} {unit : Int}
  (chain : StandardChain focus promoted inverse unit)
  {invariant : Cache -> Prop}
  {settings : Settings} (standard : settings.registry = .standard)
  {recursion : Recursion}

theorem splitConstants_returns
    (leaves : ∀ n : Int, Returns invariant (recursion (.int n)) (.int n))
    {terms : List Expr}
    {ints : List Int}
    {others : List Expr}
    (splits : Splits terms ints others) :
    Returns invariant (splitConstants recursion terms)
      (ints.map Expr.int, others) := by
  induction splits with
  | nil => exact .pure rfl
  | int n _ inductive_step =>
    have isConstant : (Expr.int n).hasOnlyConstants = true := rfl
    rw [splitConstants, if_pos isConstant]
    exact .next (leaves n) (.next inductive_step (.pure rfl))
  | other noConstant _ inductive_step =>
    rw [splitConstants, noConstant]
    exact .next inductive_step (.pure rfl)

theorem residue_single
    {term result : Expr}
    (simplified : Returns invariant (recursion term) result) :
    Returns invariant (residue settings recursion focus [term]) (some result) :=
  .next simplified (.pure rfl)

include chain standard

/-- The sum, or product, of the integers goes in front of the other terms. -/
theorem reduceChain_returns
    (leaves : ∀ n : Int, Returns invariant (recursion (.int n)) (.int n))
    {source : Expr}
    {terms : List Expr}
    (opened : openChain focus (some inverse) true source = .ok terms)
    {ints : List Int}
    {others : List Expr}
    (splits : Splits terms ints others)
    {rest : Expr}
    (rests :
      Returns invariant (residue settings recursion focus others) (some rest))
    (noConstant : rest.isConst = false)
    (total : Int)
    (joined : ints ≠ [] -> focus.joinAll (ints.map Expr.int) =
      .ok (.int total)) :
    Returns invariant (reduceChain settings recursion focus source)
      (if ints = [] then rest else .node focus (.int total) rest) := by
  have absorbed (constants : List Expr) :
      absorbConstant constants (some rest) = (constants, some rest) := by
    cases rest with
    | const value => cases noConstant
    | _ => rfl
  unfold reduceChain
  rw [standard, chain.chainTerms_eq]
  refine .next (.lift opened) (.next (.note _) ?_)
  refine .next (splitConstants_returns leaves splits) (.next rests ?_)
  simp only [absorbed]
  cases ints with
  | nil => exact .pure rfl
  | cons n ints => exact .next (.lift (joined (by simp))) (.pure rfl)

/-- A pass over a node of a chain goes on with what the chain is reduced to. -/
theorem run_returns_of_chain
    {left right left' right' : Expr}
    {operation : Operation}
    (noForeign : (Expr.node focus left right).foreign? = none)
    (reduces : Returns invariant
      (reduceChain settings recursion focus (.node focus left right))
      (.node operation left' right'))
    {pass : Pass}
    (finishes : Returns invariant
      (finish settings recursion (Expr.node focus left right).tokens
      (.node focus left right) operation left' right') pass) :
    Returns invariant (run settings recursion (.node focus left right))
      pass := by
  have goesThrough :
      goesThroughChain .standard focus left right = .ok true := by
    cases chain <;> rfl
  have isFocus : Registry.standard.focusOf focus = focus := by
    cases chain <;> rfl
  rw [run_node, standard, goesThrough, isFocus]
  refine .next (.lift (Expr.fingerprint_eq_ok _ noForeign))
    (.next (.lift rfl) ?_)
  exact .next reduces finishes

end Chain

/-! ## The end of a pass -/

/-- The outcome of a pass over a tree with the given fingerprint that ends with
a result. -/
def reaching (key : Fingerprint) (result : Expr) : Pass :=
  ⟨result, result.isCompound && Fingerprint.distance result.tokens key != 0⟩

/-- A pass that leads back to its tree is the last one. -/
@[simp] theorem reaching_self (result : Expr) :
    reaching result.tokens result = final result := by
  simp [reaching, final, Fingerprint.distance_self]

theorem refine_returns
    {invariant : Cache -> Prop}
    {recursion : Recursion}
    {operation : Operation}
    {left right left' right' : Expr}
    (leftReturns : Returns invariant (recursion left) left')
    (rightReturns : Returns invariant (recursion right) right') :
    Returns invariant (refine recursion (.node operation left right))
      (.node operation left' right') :=
  .next leftReturns (.next rightReturns (.pure rfl))

/-- A pass ends with the simplified operands under the operation, after at most
one rule. -/
theorem finish_returns
    {entryHolds : Fingerprint -> Remembered -> Prop}
    {settings : Settings}
    {recursion : Recursion}
    {key : Fingerprint}
    {source left right left' right' : Expr}
    {operation : Operation}
    (leftReturns : Returns (Cache.Holds entryHolds) (recursion left) left')
    (rightReturns : Returns (Cache.Holds entryHolds) (recursion right) right')
    (notConstant : (left'.isConst && right'.isConst) = false)
    (remembered : entryHolds key ⟨source, .node operation left' right'⟩)
    {ruled result : Expr}
    (applied : Rules.apply settings.registry operation left' right' = .ok ruled)
    (refines : Returns (Cache.Holds entryHolds) (refine recursion ruled) result)
    (noForeign : result.foreign? = none) :
    Returns (Cache.Holds entryHolds)
      (finish settings recursion key source operation left right)
      (reaching key result) := by
  unfold finish
  refine .next leftReturns (.next rightReturns ?_)
  rw [notConstant, if_neg Bool.false_ne_true]
  refine .next (.remember remembered false)
    (.next (.lift applied) (.next refines ?_))
  cases compound : result.isCompound with
  | true =>
    refine .next (.lift (Expr.fingerprint_eq_ok _ noForeign)) (.pure ?_)
    simp [reaching, compound]
  | false =>
    refine .pure ?_
    simp [reaching, final, compound]

end Pass

/-! ## Passes and nodes -/

section Nodes

variable {entryHolds : Fingerprint -> Remembered -> Prop}
  (comparable : ∀ key entry, entryHolds key entry ->
    entry.source.foreign? = none)
  {settings : Settings} {recursion : Recursion} {source result : Expr}

theorem iterate_final
    {current : Expr}
    (ran :
      Returns (Cache.Holds entryHolds) (Pass.run settings recursion current)
      (Pass.final result))
    (passes : Nat) :
    Returns (Cache.Holds entryHolds)
      (iterate settings recursion source (passes + 1) current) result := by
  rw [iterate]
  exact .next ran (.pure rfl)

include comparable

/-- A pass leads to a tree which a search finds, if at all, with the right
result, and from which further passes lead to that result. -/
theorem iterate_advances
    {current next : Expr}
    {key : Fingerprint}
    (noForeign : next.foreign? = none)
    (ran :
      Returns (Cache.Holds entryHolds) (Pass.run settings recursion current)
      (Pass.reaching key next))
    (stays : (Pass.reaching key next).isChanged = false -> next = result)
    (found : ∀ entry, entryHolds next.tokens entry ->
      entry.source.equal next = .ok true ->
      entry.result = result)
    {passes : Nat}
    (later : Returns (Cache.Holds entryHolds) (Work.isolated do
      Work.remember next.tokens next next false
      iterate settings recursion source passes next) result) :
    Returns (Cache.Holds entryHolds)
      (iterate settings recursion source (passes + 1) current) result := by
  rw [iterate]
  refine .next ran ?_
  cases changed : (Pass.reaching key next).isChanged with
  | false => exact .pure (stays changed)
  | true =>
    rw [if_pos rfl]
    refine .next (.lift (Expr.fingerprint_eq_ok _ noForeign)) ?_
    have finds : (Work.findEqual next.tokens next).Ends (Cache.Holds entryHolds)
        (fun _ => False)
        fun answer => ∀ previous, answer = some previous ->
          previous = result := by
      refine .findEqual comparable noForeign (.findEqual (by simp) ?_)
      rintro entry holds equal _ ⟨⟩
      exact found entry holds equal
    refine .bind finds fun answer isResult => ?_
    cases answer with
    | some previous => exact .next (.note _) (.pure (isResult previous rfl))
    | none => exact .next (.note _) later

/-- A pass leads to a tree that the next pass leaves alone. -/
theorem iterate_settles
    {current : Expr}
    {key : Fingerprint}
    (noForeign : result.foreign? = none)
    (ran :
      Returns (Cache.Holds entryHolds) (Pass.run settings recursion current)
      (Pass.reaching key result))
    (again :
      Returns (Cache.Holds entryHolds) (Pass.run settings recursion result)
      (Pass.final result))
    (kept : entryHolds result.tokens ⟨result, result⟩)
    (found : ∀ entry, entryHolds result.tokens entry ->
      entry.source.equal result = .ok true ->
      entry.result = result)
    (passes : Nat) :
    Returns (Cache.Holds entryHolds)
      (iterate settings recursion source (passes + 2) current) result :=
  iterate_advances comparable noForeign ran (fun _ => rfl) found
    (.isolated (.next (.remember kept false) (iterate_final again passes))
      fun _ holds => holds)

/-- A node is simplified to the result that is remembered for everything with
its fingerprint. -/
theorem simplifyNode_returns
    (noForeign : source.foreign? = none)
    (found : ∀ entry, entryHolds source.tokens entry -> entry.result = result)
    (iterates : Returns (Cache.Holds entryHolds)
      (iterate settings recursion source settings.limits.iterations source)
        result)
    (kept : entryHolds source.tokens ⟨source, result⟩) :
    Returns (Cache.Holds entryHolds) (simplifyNode settings recursion source)
      result := by
  unfold simplifyNode
  refine .next (.lift (Expr.fingerprint_eq_ok _ noForeign)) ?_
  have retrieves : (Work.retrieve settings source.tokens source).Ends
      (Cache.Holds entryHolds)
      (fun _ => False) fun answer => ∀ remembered, answer = some remembered ->
        remembered = result := by
    refine .retrieve comparable noForeign (.retrieve (by simp) ?_)
    rintro entry holds - _ ⟨⟩
    exact found entry holds
  refine .bind retrieves fun answer isResult => ?_
  cases answer with
  | some remembered => exact .next (.note _) (.pure (isResult remembered rfl))
  | none => exact .next iterates (.next (.remember kept true) (.pure rfl))

omit comparable

/-- Without a memory a node is simplified to what the passes over it lead to. -/
theorem simplified_of_iterate
    {operation : Operation}
    {left right : Expr}
    (noForeign : (Expr.node operation left right).foreign? = none)
    {levels : Nat}
    (deep : settings.limits.depth = levels + 1)
    (iterates : Returns (Cache.Holds entryHolds)
      (iterate settings (simplifyAt settings levels)
      (.node operation left right) settings.limits.iterations
        (.node operation left right))
      result) :
    simplified settings (.node operation left right) = .ok result := by
  obtain ⟨_, returned, rfl⟩ :
      ∃ a, ((iterate settings (simplifyAt settings levels)
      (.node operation left right) settings.limits.iterations
      (.node operation left right)).outcome .empty).1 = .ok a ∧ a = result :=
    iterates.exists_ok (Cache.holds_nil entryHolds)
  have nothing : (Work.retrieve settings (Expr.node operation left right).tokens
      (.node operation left right)).outcome .empty = (.ok none, .empty) := rfl
  rw [simplified_eq, deep, simplifyAt, simplifyRoot, simplifyNode,
    Expr.fingerprint_eq_ok _ noForeign, Work.outcome_bind, Work.outcome_lift]
  dsimp only
  rw [Work.outcome_bind, nothing]
  dsimp only
  rw [Work.outcome_bind]
  generalize (iterate settings (simplifyAt settings levels)
    (.node operation left right)
    settings.limits.iterations (.node operation left right)).outcome .empty =
      reached at returned ⊢
  obtain ⟨answer, memory⟩ := reached
  cases returned
  rfl

end Nodes
end Symbolic
