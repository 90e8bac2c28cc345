import Symbolic.Proofs.ChainReduction

/-!
# Related runs of a pass

The steps of a pass call the simplification of operands and are otherwise put
together from results, notes and sequences.  So a relation of computations that
is respected by these, a `Work.Congruence`, holds between two passes as soon as
it holds between the simplifications that they are given and between what they
remember of their node.
-/

namespace Symbolic
namespace Work

/-- A relation of computations that the ways of building them respect. -/
structure Congruence where
  Related : {α : Type} -> Work α -> Work α -> Prop
  lift : ∀ {α : Type} (result : Result α),
    Related (liftM result : Work α) (liftM result : Work α)
  note : ∀ event, Related (Work.note event) (Work.note event)
  bind : ∀ {α β : Type} {first second : Work α} {next next' : α -> Work β},
    Related first second -> (∀ a, Related (next a) (next' a)) ->
      Related (first >>= next) (second >>= next')

namespace Congruence

variable {α β : Type} (congruence : Congruence)

/-- Giving back a value is related to itself. -/
theorem pure (a : α) :
    congruence.Related (Pure.pure a : Work α) (Pure.pure a) :=
  congruence.lift (.ok a)

/-- So is failing. -/
theorem throw (failure : Error) :
    congruence.Related (MonadExcept.throw failure : Work α)
      (MonadExcept.throw failure) :=
  congruence.lift (.error failure)

/-- A calculation that does not touch the memory is run once, and the
continuations are compared at its result. -/
theorem lift_bind
    (result : Result α)
    {next next' : α -> Work β}
    (related : ∀ a, result = .ok a -> congruence.Related (next a) (next' a)) :
    congruence.Related (liftM result >>= next) (liftM result >>= next') := by
  cases result with
  | ok a => exact related a rfl
  | error failure => exact congruence.lift (.error failure)

/-- Applying one function to both results keeps runs related. -/
theorem map
    {first second : Work α}
    (related : congruence.Related first second)
    (f : α -> β) :
    congruence.Related (f <$> first) (f <$> second) := by
  rw [map_eq_pure_bind, map_eq_pure_bind]
  exact congruence.bind related fun a => congruence.pure (f a)

end Congruence
end Work

/-- One tree for the evaluated constants of a chain and for what is left of its
other terms. -/
def Pass.assemble
    (focus : Operation)
    (evaluated : List Expr)
    (rest : Option Expr) : Work Expr := do
  let (constants, rest) := absorbConstant evaluated rest
  if constants.isEmpty then
    return rest.getD .blank
  else
    let constant ← focus.joinAll constants
    match rest with
    | none => return constant
    | some e => return .node focus constant e

/-- What the reduction of a chain does with the terms of the chain. -/
def Pass.reduceTerms
    (settings : Settings)
    (recursion : Recursion)
    (focus : Operation)
    (terms : List Expr) : Work Expr := do
  let (evaluated, others) ← splitConstants recursion terms
  let rest ← residue settings recursion focus others
  assemble focus evaluated rest

/-- A chain is opened, the opening noted, and the terms are reduced. -/
theorem Pass.reduceChain_eq
    (settings : Settings)
    (recursion : Recursion)
    (focus : Operation)
    (source : Expr) :
    reduceChain settings recursion focus source = (do
      let terms ← chainTerms settings.registry focus source
      Work.note (.unfolded source terms.length)
      reduceTerms settings recursion focus terms) := rfl

section Steps

variable (congruence : Work.Congruence)

/-- Opening a chain involves neither the settings nor the recursion. -/
theorem chainTerms_related
    (registry : Registry)
    (focus : Operation)
    (e : Expr) :
    congruence.Related (chainTerms registry focus e)
      (chainTerms registry focus e) := by
  unfold chainTerms
  split
  · dsimp only
    split
    · exact congruence.bind (congruence.note _) fun _ => congruence.lift _
    · exact congruence.bind (congruence.pure _) fun _ => congruence.lift _
  · exact congruence.throw _

theorem promote_related
    (registry : Registry)
    (operation : Operation) :
    congruence.Related (promote registry operation)
      (promote registry operation) := by
  unfold promote
  split
  · exact congruence.pure _
  · exact congruence.bind (congruence.note _) fun _ => congruence.pure _

theorem identity_related
    (registry : Registry)
    (operation : Operation) :
    congruence.Related (identity registry operation)
      (identity registry operation) := by
  unfold identity
  split
  · exact congruence.pure _
  · exact congruence.bind (congruence.note _) fun _ => congruence.pure _

theorem productMultiple_related
    (registry : Registry)
    (operation : Operation)
    (base target : Expr) :
    congruence.Related (productMultiple registry operation base target)
      (productMultiple registry operation base target) := by
  unfold productMultiple
  refine congruence.bind (chainTerms_related congruence _ _ _) fun factors => ?_
  refine congruence.bind (congruence.lift _) fun found => ?_
  match found with
  | none => exact congruence.pure _
  | some [] => exact congruence.pure _
  | some (_ :: _) =>
    exact congruence.bind (congruence.lift _) fun _ => congruence.pure _

theorem assemble_related
    (focus : Operation)
    (evaluated : List Expr)
    (rest : Option Expr) :
    congruence.Related (Pass.assemble focus evaluated rest)
      (Pass.assemble focus evaluated rest) := by
  unfold Pass.assemble
  dsimp only
  split
  · exact congruence.pure _
  · refine congruence.bind (congruence.lift _) fun constant => ?_
    split <;> exact congruence.pure _

variable {settings settings' : Settings}
  (sameRegistry : settings'.registry = settings.registry)
  {recursion recursion' : Recursion}
  (recursive : ∀ e, congruence.Related (recursion e) (recursion' e))

include sameRegistry recursive

/-- A multiple is simplified through the recursion. -/
theorem multiple_related
    (operation : Operation)
    (base target : Expr) :
    congruence.Related (multiple settings recursion operation base target)
      (multiple settings' recursion' operation base target) := by
  unfold multiple
  rw [sameRegistry]
  split
  · exact productMultiple_related congruence _ _ _ _
  · split
    · unfold powerMultiple
      rw [sameRegistry]
      refine congruence.bind (congruence.lift _) fun isEqual => ?_
      split
      · refine congruence.bind (congruence.lift _) fun found => ?_
        cases found with
        | none => exact congruence.pure _
        | some ratio =>
          exact congruence.bind (recursive ratio) fun _ => congruence.pure _
      · exact congruence.pure _
    · exact congruence.bind (congruence.note _) fun _ => congruence.pure _

/-- The later terms are compared one at a time, by induction on them. -/
theorem sweep_related
    (collection : Collection)
    (term coefficient : Expr)
    (later : List Expr) :
    congruence.Related
      (sweep settings recursion collection term coefficient later)
      (sweep settings' recursion' collection term coefficient later) := by
  induction later generalizing coefficient with
  | nil => exact congruence.pure _
  | cons other rest inductive_step =>
    rw [sweep, sweep]
    refine congruence.bind
      (multiple_related congruence sameRegistry recursive _ term other)
      fun found => ?_
    cases found with
    | none =>
      exact congruence.bind (inductive_step coefficient) fun _ =>
        congruence.pure _
    | some factor =>
      refine congruence.bind (congruence.lift _) fun increased => ?_
      exact congruence.bind (inductive_step increased) fun _ =>
        congruence.pure _

/-- Ordered terms are collected by related runs. -/
theorem collectOrdered_related
    (collection : Collection)
    (terms : List Expr) :
    congruence.Related (collectOrdered settings recursion collection terms)
      (collectOrdered settings' recursion' collection terms) := by
  induction length : terms.length using Nat.strongRecOn generalizing terms with
  | ind count inductive_step =>
    cases terms with
    | nil =>
      rw [collectOrdered, collectOrdered]
      exact congruence.pure _
    | cons term later =>
      rw [collectOrdered, collectOrdered]
      refine congruence.bind
        (sweep_related congruence sameRegistry recursive collection term _
        later) ?_
      rintro ⟨coefficient, left, bound⟩
      have shorter : left.length < count := by
        simp only [← length, List.length_cons]
        omega
      exact congruence.bind (inductive_step left.length shorter left rfl)
        fun _ => congruence.pure _

/-- Collecting the terms of a chain gives related runs. -/
theorem collect_related
    (focus : Operation)
    (terms : List Expr) :
    congruence.Related (collect settings recursion focus terms)
      (collect settings' recursion' focus terms) := by
  unfold collect
  rw [sameRegistry]
  dsimp only
  split
  · exact congruence.lift_bind (.error _) fun _ => by rintro ⟨⟩
  · refine congruence.bind (promote_related congruence _ _) fun promoted => ?_
    split
    · exact congruence.pure _
    · split
      · exact congruence.pure _
      · refine congruence.bind (congruence.lift _) fun ordered => ?_
        refine congruence.bind
          (collectOrdered_related congruence sameRegistry recursive _ ordered)
          fun collected => ?_
        split
        · refine congruence.bind
            (congruence.map (identity_related congruence _ _) _)
            fun remaining => ?_
          exact congruence.bind (congruence.note _) fun _ => congruence.pure _
        · refine congruence.bind (congruence.pure _) fun remaining => ?_
          exact congruence.bind (congruence.note _) fun _ => congruence.pure _

omit sameRegistry in
/-- So does telling the constants from the other terms. -/
theorem splitConstants_related
    (terms : List Expr) :
    congruence.Related (Pass.splitConstants recursion terms)
      (Pass.splitConstants recursion' terms) := by
  induction terms with
  | nil => exact congruence.pure _
  | cons term rest inductive_step =>
    rw [Pass.splitConstants, Pass.splitConstants]
    split
    · refine congruence.bind (recursive term) fun value => ?_
      refine congruence.bind inductive_step fun split => ?_
      dsimp only
      split <;> exact congruence.pure _
    · exact congruence.bind inductive_step fun _ => congruence.pure _

/-- So does simplifying what is no constant. -/
theorem residue_related
    (focus : Operation)
    (terms : List Expr) :
    congruence.Related (Pass.residue settings recursion focus terms)
      (Pass.residue settings' recursion' focus terms) := by
  match terms with
  | [] => exact congruence.pure _
  | [term] => exact congruence.bind (recursive term) fun _ => congruence.pure _
  | first :: second :: rest =>
    refine congruence.bind
      (collect_related congruence sameRegistry recursive focus _)
      fun collected => ?_
    split
    · exact congruence.pure _
    · exact congruence.bind (congruence.lift _) fun _ => congruence.pure _

/-- Reducing opened terms gives related runs. -/
theorem reduceTerms_related
    (focus : Operation)
    (terms : List Expr) :
    congruence.Related (Pass.reduceTerms settings recursion focus terms)
      (Pass.reduceTerms settings' recursion' focus terms) := by
  unfold Pass.reduceTerms
  refine congruence.bind (splitConstants_related congruence recursive terms)
    fun split => ?_
  refine congruence.bind
    (residue_related congruence sameRegistry recursive focus split.2)
    fun rest => ?_
  exact assemble_related congruence focus split.1 rest

/-- Reducing a chain gives related runs. -/
theorem reduceChain_related
    (focus : Operation)
    (source : Expr) :
    congruence.Related (Pass.reduceChain settings recursion focus source)
      (Pass.reduceChain settings' recursion' focus source) := by
  rw [Pass.reduceChain_eq, Pass.reduceChain_eq, sameRegistry]
  refine congruence.bind (chainTerms_related congruence _ _ _) fun terms => ?_
  refine congruence.bind (congruence.note _) fun _ => ?_
  exact reduceTerms_related congruence sameRegistry recursive focus terms

omit sameRegistry in
/-- So does simplifying the operands of a result once more. -/
theorem refine_related
    (e : Expr) :
    congruence.Related (Pass.refine recursion e)
      (Pass.refine recursion' e) := by
  unfold Pass.refine
  split
  · refine congruence.bind (recursive _) fun left => ?_
    exact congruence.bind (recursive _) fun right => congruence.pure _
  · exact congruence.pure _

section Finish

variable {key : Fingerprint} {source : Expr}
  (remembers : ∀ result,
    congruence.Related (Work.remember key source result false)
    (Work.remember key source result false))

include remembers

/-- The end of a pass gives related runs. -/
theorem finish_related
    (operation : Operation)
    (left right : Expr) :
    congruence.Related
      (Pass.finish settings recursion key source operation left right)
      (Pass.finish settings' recursion' key source operation left right) := by
  unfold Pass.finish
  rw [sameRegistry]
  refine congruence.bind (recursive left) fun left' => ?_
  refine congruence.bind (recursive right) fun right' => ?_
  split
  · exact congruence.bind (congruence.lift _) fun _ => congruence.pure _
  · refine congruence.bind (remembers _) fun _ => ?_
    refine congruence.bind (congruence.lift _) fun ruled => ?_
    refine congruence.bind (refine_related congruence recursive ruled)
      fun result => ?_
    split
    · exact congruence.bind (congruence.lift _) fun _ => congruence.pure _
    · exact congruence.pure _

/-- So does what follows the reduction of a chain. -/
theorem afterReduction_related
    (reduced : Expr) :
    congruence.Related
      (Pass.afterReduction settings recursion key source reduced)
      (Pass.afterReduction settings' recursion' key source reduced) := by
  unfold Pass.afterReduction
  split
  · exact finish_related congruence sameRegistry recursive remembers _ _ _
  · exact congruence.map (recursive _) _
  · exact congruence.map (recursive _) _

end Finish

/-- Passes over a node are related if the simplifications of operands are, and
what the passes remember of the node. -/
theorem Pass.run_related
    {e : Expr}
    (remembers : ∀ result,
      congruence.Related (Work.remember e.tokens e result false)
      (Work.remember e.tokens e result false)) :
    congruence.Related (Pass.run settings recursion e)
      (Pass.run settings' recursion' e) := by
  cases e with
  | node operation left right =>
    rw [Pass.run_node, Pass.run_node, sameRegistry]
    refine congruence.lift_bind _ fun key hashed => ?_
    obtain rfl := Expr.eq_tokens_of_fingerprint hashed
    refine congruence.bind (congruence.lift _) fun isChain => ?_
    split
    · refine congruence.bind
        (reduceChain_related congruence sameRegistry recursive _ _)
        fun reduced => ?_
      exact afterReduction_related congruence sameRegistry recursive
        remembers reduced
    · exact finish_related congruence sameRegistry recursive remembers _ _ _
  | _ => exact congruence.throw _

end Steps
end Symbolic
