import Symbolic.Registry.Basic

/-!
# Registries under construction

A registry is built in place.  Its operations are kept in two indexes, by their
ids and by their symbols, and their relations in four tables under the ids of
operations.  A registration checks what it is given and writes into the tables
one after the other; a failure ends it, and whatever was written before the
failure stays written.

Everything else works on a registry that no longer changes: `Tables.snapshot` is
the registry that the tables hold, and `Tables.ofRegistry` gives its tables
back.
-/

namespace Symbolic

/-- The indexes and the relation tables of a registry under construction.  The
indexes list the operations in the order of their registration. -/
structure Tables where
  byId : List (Int × Operation)
  bySymbol : List (String × Operation)
  inverses : Table Inverse
  bases : Table Operation
  promotions : Table Operation
  identities : Table Expr

namespace Tables

/-- The tables of the registry without operations. -/
def empty : Tables :=
  ⟨[], [], [], [], [], []⟩

/-- The tables of a registry. -/
def ofRegistry (registry : Registry) : Tables where
  byId := registry.operations.map fun operation => (operation.id, operation)
  bySymbol :=
    registry.operations.map fun operation => (operation.symbol, operation)
  inverses := registry.inverses
  bases := registry.bases
  promotions := registry.promotions
  identities := registry.identities

/-- The registered operations in the order of their registration. -/
def operations (tables : Tables) : List Operation :=
  tables.byId.map Prod.snd

/-- The symbols in the order of registration. -/
def symbols (tables : Tables) : List String :=
  tables.bySymbol.map Prod.fst

/-- The registry that the tables make up. -/
def snapshot (tables : Tables) : Registry :=
  ⟨tables.operations, tables.inverses, tables.bases, tables.promotions,
    tables.identities⟩

/-- The operation with an id, or a report of the symbols there are. -/
def get (tables : Tables) (id : Int) : Result Operation :=
  match tables.byId.lookup id with
  | some operation => .ok operation
  | none => .error (.unknownOperator (.id id) tables.symbols)

/-- The operation with a symbol, or a report of the symbols there are. -/
def lookup (tables : Tables) (symbol : String) : Result Operation :=
  match tables.bySymbol.lookup symbol with
  | some operation => .ok operation
  | none => .error (.unknownOperator (.symbol symbol) tables.symbols)

/-- The registered operation that is the same as the given one. -/
def find? (tables : Tables) (operation : Operation) : Option Operation :=
  (tables.byId.lookup operation.id).filter fun registered =>
    registered.isSame operation

/-- The operation itself is registered, not merely one with its id. -/
def contains (tables : Tables) (operation : Operation) : Bool :=
  (tables.find? operation).isSome

/-- The inverse of an operation. -/
def inverse? (tables : Tables) (operation : Operation) : Option Inverse :=
  tables.inverses.get? operation.id

/-- The operation that the given one is the inverse of. -/
def base? (tables : Tables) (operation : Operation) : Option Operation :=
  tables.bases.get? operation.id

end Tables

/-- A change of tables that may fail.  What was written before a failure
stays. -/
abbrev Registering := ExceptT Error (StateM Tables)

namespace Registering

/-- The outcome of a change and the tables it leaves. -/
def outcome (change : Registering α) (tables : Tables) : Result α × Tables :=
  change.run.run tables

/-- The registered operation that is the same as the given one, or a report. -/
def require (operation : Operation) : Registering Operation := do
  let tables ← get
  match tables.find? operation with
  | some registered => return registered
  | none => throw (.unknownOperator (.symbol operation.symbol) tables.symbols)

/-- Add an operation whose id and symbol are not taken to both indexes. -/
def add (operation : Operation) : Registering Unit := do
  let tables ← get
  if (tables.byId.lookup operation.id).isSome then
    throw (.idTaken operation.id)
  else if (tables.bySymbol.lookup operation.symbol).isSome then
    throw (.symbolTaken operation.symbol)
  else
    modify fun tables =>
      { tables with byId := tables.byId ++ [(operation.id, operation)] }
    modify fun tables =>
      { tables with
        bySymbol := tables.bySymbol ++ [(operation.symbol, operation)] }

/-- Make `inverse` the inverse of `base`, and `base` the base of `inverse`. -/
def addInverse (base inverse : Operation) (transform : Transform) :
    Registering Unit := do
  let base ← require base
  let inverse ← require inverse
  modify fun tables =>
    { tables with inverses := tables.inverses.put base.id ⟨inverse, transform⟩ }
  modify fun tables =>
    { tables with bases := tables.bases.put inverse.id base }

/-- Let `promoted` stand for repeated terms of `operation`. -/
def addPromotion (operation promoted : Operation) : Registering Unit := do
  let operation ← require operation
  let promoted ← require promoted
  modify fun tables =>
    { tables with promotions := tables.promotions.put operation.id promoted }

/-- Make `value` the identity element of `operation`. -/
def addIdentity (operation : Operation) (value : Expr) : Registering Unit := do
  let operation ← require operation
  modify fun tables =>
    { tables with identities := tables.identities.put operation.id value }

end Registering
end Symbolic
