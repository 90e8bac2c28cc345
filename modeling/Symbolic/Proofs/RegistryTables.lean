import Symbolic.Proofs.Registration
import Symbolic.Registry.Tables

/-!
# Tables of registries

Changing the tables that hold a registry does to them what a registration does
to the registry, and if the registration is refused the tables are left as they
were: every change checks all that it needs before it writes.  So the tables
that any history of changes leads to hold a registry that was built by
registrations, whichever of the changes were refused.
-/

namespace Symbolic

/-- Carry out a registration on tables. -/
def Registration.perform : Registration -> Registering Unit
  | add operation => Registering.add operation
  | addInverse base inverse transform =>
    Registering.addInverse base inverse transform
  | addPromotion operation promoted =>
    Registering.addPromotion operation promoted
  | addIdentity operation value => Registering.addIdentity operation value

namespace Registering

variable {α β : Type}

@[simp] theorem outcome_pure (a : α) (tables : Tables) :
    (pure a : Registering α).outcome tables = (.ok a, tables) := rfl

@[simp] theorem outcome_throw (failure : Error) (tables : Tables) :
    (throw failure : Registering α).outcome tables = (.error failure, tables) :=
      rfl

@[simp] theorem outcome_get (tables : Tables) :
    (get : Registering Tables).outcome tables = (.ok tables, tables) := rfl

@[simp] theorem outcome_modify (write : Tables -> Tables) (tables : Tables) :
    (modify write : Registering PUnit).outcome tables =
    (.ok ⟨⟩, write tables) := rfl

/-- The tables a step leaves, failed or not, are those the next one finds. -/
@[simp] theorem outcome_bind
    (change : Registering α)
    (next : α -> Registering β)
    (tables : Tables) :
    (change >>= next).outcome tables =
      match change.outcome tables with
      | (.ok a, after) => (next a).outcome after
      | (.error failure, after) => (.error failure, after) := by
  simp only [outcome, ExceptT.run, bind, ExceptT.bind, ExceptT.mk, StateT.run,
    StateT.bind, ExceptT.bindCont]
  generalize change tables = reached
  obtain ⟨result, after⟩ := reached
  cases result <;> rfl

end Registering

namespace Tables

variable (registry : Registry)

@[simp] theorem operations_ofRegistry :
    (ofRegistry registry).operations = registry.operations := by
  simp [operations, ofRegistry, Function.comp_def]

@[simp] theorem symbols_ofRegistry :
    (ofRegistry registry).symbols = registry.symbols := by
  simp [symbols, ofRegistry, Registry.symbols, Function.comp_def]

/-- A registry is read back from its tables. -/
@[simp] theorem snapshot_ofRegistry :
    (ofRegistry registry).snapshot = registry := by
  simp only [snapshot, operations_ofRegistry]
  rfl

/-- An index by a key finds the first operation with the key. -/
theorem lookup_map_key
    {α : Type}
    [BEq α]
    [LawfulBEq α]
    (key : Operation -> α)
    (operations : List Operation)
    (wanted : α) :
    (operations.map fun operation => (key operation, operation)).lookup wanted =
      operations.find? fun operation => key operation == wanted := by
  induction operations with
  | nil => rfl
  | cons operation later inductive_step =>
    rw [List.map_cons, List.lookup_cons, List.find?_cons, inductive_step,
      BEq.comm]

@[simp] theorem byId_ofRegistry (id : Int) :
    (ofRegistry registry).byId.lookup id = registry.byId? id :=
  lookup_map_key Operation.id registry.operations id

@[simp] theorem bySymbol_ofRegistry (symbol : String) :
    (ofRegistry registry).bySymbol.lookup symbol = registry.bySymbol? symbol :=
  lookup_map_key Operation.symbol registry.operations symbol

@[simp] theorem find?_ofRegistry (operation : Operation) :
    (ofRegistry registry).find? operation = registry.find? operation := by
  rw [find?, byId_ofRegistry]
  rfl

@[simp] theorem contains_ofRegistry (operation : Operation) :
    (ofRegistry registry).contains operation = registry.contains operation := by
  rw [contains, find?_ofRegistry]
  rfl

@[simp] theorem get_ofRegistry (id : Int) :
    (ofRegistry registry).get id = registry.get id := by
  rw [get, byId_ofRegistry, symbols_ofRegistry]
  rfl

@[simp] theorem lookup_ofRegistry (symbol : String) :
    (ofRegistry registry).lookup symbol = registry.lookup symbol := by
  rw [lookup, bySymbol_ofRegistry, symbols_ofRegistry]
  rfl

end Tables

namespace Registering

open Tables

/-- A check that an operation is registered only reads. -/
theorem outcome_require (registry : Registry) (operation : Operation) :
    (require operation).outcome (ofRegistry registry) =
      (registry.require operation, ofRegistry registry) := by
  simp only [require, outcome_bind, outcome_get, find?_ofRegistry,
    symbols_ofRegistry]
  unfold Registry.require
  cases registry.find? operation <;> rfl

/-- What follows a check sees the tables as they were before it. -/
theorem outcome_require_bind
    (registry : Registry)
    (operation : Operation)
    (next : Operation -> Registering α) :
    (require operation >>= next).outcome (ofRegistry registry) =
      match registry.require operation with
      | .ok registered => (next registered).outcome (ofRegistry registry)
      | .error failure => (.error failure, ofRegistry registry) := by
  rw [outcome_bind, outcome_require]
  cases registry.require operation <;> rfl

end Registering

/-- A registration on the tables of a registry has the outcome that it has on
the registry. If it is accepted the tables are those of the new registry, and if
it is refused they stay as they are. -/
theorem Registration.outcome_perform
    (registration : Registration)
    (registry : Registry) :
    registration.perform.outcome (.ofRegistry registry) =
      match registration.apply registry with
      | .ok after => (.ok (), .ofRegistry after)
      | .error failure => (.error failure, .ofRegistry registry) := by
  cases registration with
  | add operation =>
    simp only [perform, apply, Registering.add, Registry.add,
      Registering.outcome_bind,
      Registering.outcome_get, Tables.byId_ofRegistry,
        Tables.bySymbol_ofRegistry]
    split
    · rfl
    · split
      · rfl
      · simp [Tables.ofRegistry]
  | addInverse base inverse transform =>
    simp only [perform, apply, Registering.addInverse, Registry.addInverse,
      Registering.outcome_require_bind]
    cases registry.require base with
    | error failure => rfl
    | ok base' => cases registry.require inverse <;> rfl
  | addPromotion operation promoted =>
    simp only [perform, apply, Registering.addPromotion, Registry.addPromotion,
      Registering.outcome_require_bind]
    cases registry.require operation with
    | error failure => rfl
    | ok operation' => cases registry.require promoted <;> rfl
  | addIdentity operation value =>
    simp only [perform, apply, Registering.addIdentity, Registry.addIdentity,
      Registering.outcome_require_bind]
    cases registry.require operation <;> rfl

/-! ## Histories -/

namespace Registry

/-- A registered operation is the same as one that is registered with its id. -/
theorem contains_iff
    {registry : Registry}
    (unique : registry.HasUniqueKeys)
    (operation : Operation) :
    registry.contains operation = true ↔ ∃ registered ∈ registry.operations,
      registered.id = operation.id ∧ registered.isSame operation = true := by
  rw [contains, Option.isSome_iff_exists]
  constructor
  · rintro ⟨registered, found⟩
    obtain ⟨byId, same⟩ := Option.filter_eq_some_iff.1 found
    exact ⟨registered, mem_of_byId?_eq_some byId,
      id_of_byId?_eq_some byId, same⟩
  · rintro ⟨registered, member, sameId, same⟩
    refine ⟨registered, Option.filter_eq_some_iff.2 ⟨?_, same⟩⟩
    rw [← sameId]
    exact unique.byId?_id member

end Registry

namespace Tables

/-- The tables that a history of registrations leads to, whichever of them were
accepted. The latest registration stands first. -/
def after : List Registration -> Tables
  | [] => empty
  | registration :: earlier => (registration.perform.outcome (after earlier)).2

/-- Every history leads to the tables of a registry that was built by
registrations. -/
theorem exists_built (history : List Registration) :
    ∃ registry : Registry, registry.Built ∧
      after history = ofRegistry registry := by
  induction history with
  | nil => exact ⟨.empty, .empty, rfl⟩
  | cons registration earlier inductive_step =>
    obtain ⟨registry, built, reached⟩ := inductive_step
    rw [after, reached, registration.outcome_perform]
    cases accepted : registration.apply registry with
    | ok next => exact ⟨next, built.register registration accepted, rfl⟩
    | error failure => exact ⟨registry, built, rfl⟩

/-- What the tables of a registry say agrees: ids and symbols belong to one
operation each, an operation is found by both and nothing else is, and relations
are filed under registered ids and name registered operations. -/
structure IsConsistent (tables : Tables) : Prop where
  ids : (tables.operations.map Operation.id).Nodup
  symbols : (tables.operations.map Operation.symbol).Nodup
  contains_iff : ∀ operation, tables.contains operation = true ↔
    ∃ registered ∈ tables.operations,
      registered.id = operation.id ∧ registered.isSame operation = true
  get_id : ∀ operation ∈ tables.operations,
    tables.get operation.id = .ok operation
  lookup_symbol : ∀ operation ∈ tables.operations,
    tables.lookup operation.symbol = .ok operation
  mem_of_get : ∀ id operation, tables.get id = .ok operation ->
    operation ∈ tables.operations
  mem_of_lookup : ∀ symbol operation, tables.lookup symbol = .ok operation ->
    operation ∈ tables.operations
  inverses : tables.inverses.Holds fun id inverse =>
    (∃ operation ∈ tables.operations, operation.id = id) ∧
      inverse.operation ∈ tables.operations
  bases : tables.bases.Holds fun id base =>
    (∃ operation ∈ tables.operations, operation.id = id) ∧
      base ∈ tables.operations
  promotions : tables.promotions.Holds fun id promoted =>
    (∃ operation ∈ tables.operations, operation.id = id) ∧
      promoted ∈ tables.operations
  identities : tables.identities.Holds fun id _ =>
    ∃ operation ∈ tables.operations, operation.id = id

/-- The tables of a built registry are consistent. -/
theorem isConsistent_ofRegistry
    {registry : Registry}
    (built : registry.Built) :
    (ofRegistry registry).IsConsistent := by
  have unique := built.hasUniqueKeys
  have relates := built.relatesRegistered
  constructor
  case ids => simpa using unique.ids
  case symbols => simpa [Registry.symbols] using unique.symbols
  case contains_iff =>
    intro operation
    simpa using registry.contains_iff unique operation
  case get_id =>
    intro operation member
    rw [operations_ofRegistry] at member
    rw [get_ofRegistry, Registry.get, unique.byId?_id member]
  case lookup_symbol =>
    intro operation member
    rw [operations_ofRegistry] at member
    rw [lookup_ofRegistry, Registry.lookup, unique.bySymbol?_symbol member]
  case mem_of_get =>
    intro id operation returned
    rw [get_ofRegistry, Registry.get] at returned
    rw [operations_ofRegistry]
    split at returned
    · next found =>
      cases returned
      exact Registry.mem_of_byId?_eq_some found
    · cases returned
  case mem_of_lookup =>
    intro symbol operation returned
    rw [lookup_ofRegistry, Registry.lookup] at returned
    rw [operations_ofRegistry]
    split at returned
    · next found =>
      cases returned
      exact Registry.mem_of_bySymbol?_eq_some found
    · cases returned
  case inverses =>
    rw [operations_ofRegistry]
    exact relates.inverses
  case bases =>
    rw [operations_ofRegistry]
    exact relates.bases
  case promotions =>
    rw [operations_ofRegistry]
    exact relates.promotions
  case identities =>
    rw [operations_ofRegistry]
    exact relates.identities

/-- Whatever registrations were asked for, in whatever order, the tables that
they lead to are consistent, and the next registration leaves all of them as
they are if it fails. -/
theorem consistent_after
    (history : List Registration) :
    (after history).IsConsistent ∧
      ∀ (registration : Registration) (failure : Error),
        (registration.perform.outcome (after history)).1 = .error failure ->
          (registration.perform.outcome (after history)).2 = after history := by
  obtain ⟨registry, built, reached⟩ := exists_built history
  rw [reached]
  refine ⟨isConsistent_ofRegistry built, fun registration failure failed => ?_⟩
  rw [registration.outcome_perform] at failed ⊢
  cases accepted : registration.apply registry with
  | ok next =>
    rw [accepted] at failed
    cases failed
  | error refusal => rfl

/-- Products are not registered when they are to become the inverse of sums: the
base was already found, and yet nothing is written. -/
theorem consistent_after_unknownInverse :
    ((Registration.addInverse .sum .product .negate).perform.outcome
        (after [.addInverse .sum .difference .negate, .add .difference,
          .add .sum])).1 =
      .error (.unknownOperator (.symbol "*") ["+", "-"]) ∧
    ((Registration.addInverse .sum .product .negate).perform.outcome
        (after [.addInverse .sum .difference .negate, .add .difference,
          .add .sum])).2 =
      after [.addInverse .sum .difference .negate, .add .difference,
        .add .sum] :=
  ⟨rfl, (consistent_after _).2 _ _ rfl⟩

end Tables
end Symbolic
