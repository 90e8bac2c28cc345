import Mathlib.Data.List.Nodup
import Symbolic.Proofs.Outcome
import Symbolic.Registry.Basic

/-!
# Registries that are built by registrations

A registry starts empty and changes only by registrations: of operations, of
inverses, of promotions and of identity elements.  Each registration that is
accepted keeps ids and symbols unique, so that in every registry that is built
this way an operation is found by its id and by its symbol, and each relates
only operations that are registered.
-/

namespace Symbolic

/-- A request to change a registry. -/
inductive Registration where
  | add (operation : Operation)
  | addInverse (base inverse : Operation) (transform : Transform)
  | addPromotion (operation promoted : Operation)
  | addIdentity (operation : Operation) (value : Expr)

/-- The registry after a registration, if it is accepted. -/
def Registration.apply (registry : Registry) : Registration -> Result Registry
  | add operation => registry.add operation
  | addInverse base inverse transform =>
    registry.addInverse base inverse transform
  | addPromotion operation promoted => registry.addPromotion operation promoted
  | addIdentity operation value => registry.addIdentity operation value

namespace Table

/-- Every entry of a table satisfies a predicate, the replaced ones included. -/
def Holds (holds : Int -> α -> Prop) (table : Table α) : Prop :=
  ∀ entry ∈ table, holds entry.1 entry.2

theorem holds_nil (holds : Int -> α -> Prop) : Holds holds [] := by
  intro entry member
  cases member

theorem Holds.put
    {holds : Int -> α -> Prop}
    {table : Table α}
    (all : table.Holds holds)
    {id : Int}
    {value : α}
    (new : holds id value) :
    (table.put id value).Holds holds := by
  intro entry member
  rcases List.mem_cons.1 member with rfl | old
  · exact new
  · exact all entry old

theorem Holds.mono
    {holds holds' : Int -> α -> Prop}
    {table : Table α}
    (all : table.Holds holds)
    (weaker : ∀ id value, holds id value -> holds' id value) :
    table.Holds holds' :=
  fun entry member => weaker entry.1 entry.2 (all entry member)

theorem Holds.of_get?
    {holds : Int -> α -> Prop}
    {table : Table α}
    (all : table.Holds holds)
    {id : Int}
    {value : α}
    (found : table.get? id = some value) :
    holds id value := by
  obtain ⟨before, later, rfl, -⟩ := List.lookup_eq_some_iff.1 found
  exact all (id, value) (by simp)

end Table

namespace Registry

/-- A registry that registrations built from the empty one. -/
inductive Built : Registry -> Prop where
  | empty : Built empty
  | register
      {registry registry' : Registry}
      (registration : Registration)
      (built : Built registry)
      (accepted : registration.apply registry = .ok registry') :
      Built registry'

/-- Neither ids nor symbols occur twice. -/
structure HasUniqueKeys (registry : Registry) : Prop where
  ids : (registry.operations.map Operation.id).Nodup
  symbols : registry.symbols.Nodup

/-- What an accepted registration changes: one case for each kind of
registration. -/
inductive Accepts (registry : Registry) : Registration -> Registry -> Prop where
  | add
      {operation : Operation}
      (newId : registry.byId? operation.id = none)
      (newSymbol : registry.bySymbol? operation.symbol = none) :
      Accepts registry (.add operation)
        { registry with operations := registry.operations ++ [operation] }
  | addInverse
      {base base' inverse inverse' : Operation}
      (transform : Transform)
      (isBase : registry.find? base = some base')
      (isInverse : registry.find? inverse = some inverse') :
      Accepts registry (.addInverse base inverse transform)
        { registry with
          inverses := registry.inverses.put base'.id ⟨inverse', transform⟩
          bases := registry.bases.put inverse'.id base' }
  | addPromotion
      {operation operation' promoted promoted' : Operation}
      (isOperation : registry.find? operation = some operation')
      (isPromoted : registry.find? promoted = some promoted') :
      Accepts registry (.addPromotion operation promoted)
        { registry with promotions :=
          registry.promotions.put operation'.id promoted' }
  | addIdentity
      {operation operation' : Operation}
      (value : Expr)
      (isOperation : registry.find? operation = some operation') :
      Accepts registry (.addIdentity operation value)
        { registry with identities :=
          registry.identities.put operation'.id value }

theorem find?_of_require_eq_ok
    {registry : Registry}
    {operation registered : Operation}
    (required : registry.require operation = .ok registered) :
    registry.find? operation = some registered := by
  unfold require at required
  split at required
  · next found =>
    cases required
    exact found
  · cases required

theorem accepts_of_apply
    {registry registry' : Registry}
    {registration : Registration}
    (accepted : registration.apply registry = .ok registry') :
    registry.Accepts registration registry' := by
  cases registration with
  | add operation =>
    simp only [Registration.apply, add] at accepted
    split at accepted
    · cases accepted
    · next newId =>
      split at accepted
      · cases accepted
      · next newSymbol =>
        cases accepted
        exact .add (by simpa using newId) (by simpa using newSymbol)
  | addInverse base inverse transform =>
    obtain ⟨base', isBase, accepted⟩ := Result.bind_eq_ok.1 accepted
    obtain ⟨inverse', isInverse, accepted⟩ := Result.bind_eq_ok.1 accepted
    cases accepted
    exact .addInverse transform (find?_of_require_eq_ok isBase)
      (find?_of_require_eq_ok isInverse)
  | addPromotion operation promoted =>
    obtain ⟨operation', isOperation, accepted⟩ := Result.bind_eq_ok.1 accepted
    obtain ⟨promoted', isPromoted, accepted⟩ := Result.bind_eq_ok.1 accepted
    cases accepted
    exact .addPromotion (find?_of_require_eq_ok isOperation)
      (find?_of_require_eq_ok isPromoted)
  | addIdentity operation value =>
    obtain ⟨operation', isOperation, accepted⟩ := Result.bind_eq_ok.1 accepted
    cases accepted
    exact .addIdentity value (find?_of_require_eq_ok isOperation)

/-- A new key stays unique behind unique keys. -/
theorem nodup_keys_append
    {α : Type}
    [BEq α]
    [LawfulBEq α]
    {key : Operation -> α}
    {operations : List Operation}
    {operation : Operation}
    (unique : (operations.map key).Nodup)
    (new : (operations.find? fun other => key other == key operation) = none) :
    ((operations ++ [operation]).map key).Nodup := by
  rw [List.map_append, List.map_singleton, List.nodup_append]
  refine ⟨unique, by simp, ?_⟩
  intro taken member added isAdded same
  obtain ⟨other, isOperation, rfl⟩ := List.mem_map.1 member
  obtain rfl := List.mem_singleton.1 isAdded
  have differs := List.find?_eq_none.1 new other isOperation
  exact differs (by rw [same]; exact beq_self_eq_true _)

theorem HasUniqueKeys.of_accepts
    {registry registry' : Registry}
    {registration : Registration}
    (unique : registry.HasUniqueKeys)
    (accepts : registry.Accepts registration registry') :
    registry'.HasUniqueKeys := by
  cases accepts with
  | add newId newSymbol =>
    exact ⟨nodup_keys_append unique.ids newId,
      nodup_keys_append unique.symbols newSymbol⟩
  | _ => exact ⟨unique.ids, unique.symbols⟩

/-- Ids and symbols are unique in every registry that is built by
registrations. -/
theorem Built.hasUniqueKeys
    {registry : Registry}
    (built : registry.Built) :
    registry.HasUniqueKeys := by
  induction built with
  | empty => exact ⟨List.nodup_nil, List.nodup_nil⟩
  | register registration built accepted inductive_step =>
    exact inductive_step.of_accepts (accepts_of_apply accepted)

/-- An operation is found by a key that is unique. -/
theorem find?_key_eq_some
    {α : Type}
    [BEq α]
    [LawfulBEq α]
    {key : Operation -> α}
    {operations : List Operation}
    (unique : (operations.map key).Nodup)
    {operation : Operation}
    (member : operation ∈ operations) :
    (operations.find? fun other => key other == key operation) =
      some operation := by
  cases found : operations.find? fun other => key other == key operation with
  | none =>
    have differs := List.find?_eq_none.1 found operation member
    exact absurd (beq_self_eq_true _) differs
  | some other =>
    have same :=
      List.find?_some (p := fun other => key other == key operation) found
    rw [List.inj_on_of_nodup_map unique (List.mem_of_find?_eq_some found) member
      (eq_of_beq same)]

/-- Registered operations with the same id are the same. -/
theorem HasUniqueKeys.id_eq_iff
    {registry : Registry}
    (unique : registry.HasUniqueKeys)
    {operation other : Operation}
    (member : operation ∈ registry.operations)
    (otherMember : other ∈ registry.operations) :
    operation.id = other.id ↔ operation = other :=
  ⟨fun same => List.inj_on_of_nodup_map unique.ids member otherMember same,
    congrArg Operation.id⟩

/-- A registered operation is found by its id. -/
theorem HasUniqueKeys.byId?_id
    {registry : Registry}
    (unique : registry.HasUniqueKeys)
    {operation : Operation}
    (member : operation ∈ registry.operations) :
    registry.byId? operation.id = some operation :=
  find?_key_eq_some unique.ids member

/-- A registered operation is found by its symbol. -/
theorem HasUniqueKeys.bySymbol?_symbol
    {registry : Registry}
    (unique : registry.HasUniqueKeys)
    {operation : Operation}
    (member : operation ∈ registry.operations) :
    registry.bySymbol? operation.symbol = some operation :=
  find?_key_eq_some unique.symbols member

theorem mem_of_find?_eq_some
    {registry : Registry}
    {operation registered : Operation}
    (found : registry.find? operation = some registered) :
    registered ∈ registry.operations := by
  obtain ⟨byId, -⟩ := Option.filter_eq_some_iff.1 found
  exact mem_of_byId?_eq_some byId

/-- Relations are filed under the ids of registered operations, and all
operations that they name are registered. -/
structure RelatesRegistered (registry : Registry) : Prop where
  inverses : registry.inverses.Holds fun id inverse =>
    (∃ operation ∈ registry.operations, operation.id = id) ∧
      inverse.operation ∈ registry.operations
  bases : registry.bases.Holds fun id base =>
    (∃ operation ∈ registry.operations, operation.id = id) ∧
      base ∈ registry.operations
  promotions : registry.promotions.Holds fun id promoted =>
    (∃ operation ∈ registry.operations, operation.id = id) ∧
      promoted ∈ registry.operations
  identities : registry.identities.Holds fun id _ =>
    ∃ operation ∈ registry.operations, operation.id = id

/-- With more operations, what relates registered operations still does. -/
theorem RelatesRegistered.grown
    {registry : Registry}
    (relates : registry.RelatesRegistered)
    {operations : List Operation}
    (more : registry.operations ⊆ operations) :
    RelatesRegistered { registry with operations } := by
  have kept {id : Int} (isKey : ∃ operation ∈ registry.operations,
      operation.id = id) :
      ∃ operation ∈ operations, operation.id = id := by
    obtain ⟨operation, member, same⟩ := isKey
    exact ⟨operation, more member, same⟩
  exact ⟨relates.inverses.mono fun id inverse named =>
    ⟨kept named.1, more named.2⟩,
    relates.bases.mono fun id base named => ⟨kept named.1, more named.2⟩,
    relates.promotions.mono fun id promoted named =>
      ⟨kept named.1, more named.2⟩,
    relates.identities.mono fun id value isKey => kept isKey⟩

theorem RelatesRegistered.of_accepts
    {registry registry' : Registry}
    {registration : Registration}
    (relates : registry.RelatesRegistered)
    (accepts : registry.Accepts registration registry') :
    registry'.RelatesRegistered := by
  cases accepts with
  | add newId newSymbol => exact relates.grown (List.subset_append_left _ _)
  | addInverse transform isBase isInverse =>
    have baseMember := mem_of_find?_eq_some isBase
    have inverseMember := mem_of_find?_eq_some isInverse
    exact { relates with
      inverses := relates.inverses.put ⟨⟨_, baseMember, rfl⟩, inverseMember⟩
      bases := relates.bases.put ⟨⟨_, inverseMember, rfl⟩, baseMember⟩ }
  | addPromotion isOperation isPromoted =>
    have member := mem_of_find?_eq_some isOperation
    have promotedMember := mem_of_find?_eq_some isPromoted
    exact { relates with
      promotions := relates.promotions.put ⟨⟨_, member, rfl⟩, promotedMember⟩ }
  | addIdentity value isOperation =>
    have member := mem_of_find?_eq_some isOperation
    exact { relates with identities := relates.identities.put ⟨_, member, rfl⟩ }

/-- In every registry that is built by registrations the relations name only
registered operations. -/
theorem Built.relatesRegistered
    {registry : Registry}
    (built : registry.Built) :
    registry.RelatesRegistered := by
  induction built with
  | empty =>
    exact ⟨Table.holds_nil _, Table.holds_nil _, Table.holds_nil _,
      Table.holds_nil _⟩
  | register registration built accepted inductive_step =>
    exact inductive_step.of_accepts (accepts_of_apply accepted)

/-- Registrations that are accepted one after the other lead from built
registries to built registries. -/
theorem Built.foldlM
    {registry registry' : Registry}
    {registrations : List Registration}
    (built : registry.Built)
    (accepted : registrations.foldlM
      (fun reached registration => registration.apply reached)
      registry = .ok registry') :
    registry'.Built := by
  induction registrations generalizing registry with
  | nil =>
    cases accepted
    exact built
  | cons registration later inductive_step =>
    rw [List.foldlM_cons] at accepted
    obtain ⟨next, acceptedFirst, acceptedLater⟩ := Result.bind_eq_ok.1 accepted
    exact inductive_step (built.register registration acceptedFirst)
      acceptedLater

/-- The registrations that make up the standard registry. -/
def standardRegistrations : List Registration :=
  Operation.arithmetic.map .add ++
    [.addInverse .sum .difference .negate,
      .addInverse .product .quotient .reciprocal,
      .addPromotion .sum .product, .addPromotion .product .power,
      .addIdentity .sum (.int 0), .addIdentity .product (.int 1)]

/-- The standard registry is the one that the registrations of arithmetic
build. -/
theorem built_standard : standard.Built :=
  (Built.foldlM .empty (show standardRegistrations.foldlM _ _ = _ from rfl))

end Registry
end Symbolic
