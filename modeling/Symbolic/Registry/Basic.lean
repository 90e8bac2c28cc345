import Symbolic.Registry.Transform

/-!
# Registries

A registry lists operations in the order of their registration, with unique ids
and symbols.  It relates them: which operation is the inverse of which, which
one stands for repeated terms of another, and what the identity elements are.
Relations name only registered operations, and every inverse has one of the two
transforms of arithmetic.
-/

namespace Symbolic

/-- Values filed under ids of operations; a later value replaces an earlier
one. -/
abbrev Table (α : Type) := List (Int × α)

/-- File a value under an id. -/
def Table.put (table : Table α) (id : Int) (value : α) : Table α :=
  (id, value) :: table

/-- The value filed under an id. -/
def Table.get? (table : Table α) (id : Int) : Option α :=
  table.lookup id

/-- An inverse operation and the transform that makes its right operand a
term. -/
structure Inverse where
  operation : Operation
  transform : Transform

/-- Operations and the relations between them. -/
structure Registry where
  operations : List Operation
  inverses : Table Inverse
  bases : Table Operation
  promotions : Table Operation
  identities : Table Expr

namespace Registry

/-- The registry without operations. -/
def empty : Registry :=
  ⟨[], [], [], [], []⟩

/-- The operation with an id. -/
def byId? (registry : Registry) (id : Int) : Option Operation :=
  registry.operations.find? fun operation => operation.id == id

/-- The operation with a symbol. -/
def bySymbol? (registry : Registry) (symbol : String) : Option Operation :=
  registry.operations.find? fun operation => operation.symbol == symbol

/-- What is found by an id is registered. -/
theorem mem_of_byId?_eq_some
    {registry : Registry}
    {id : Int}
    {operation : Operation}
    (found : registry.byId? id = some operation) :
    operation ∈ registry.operations :=
  List.mem_of_find?_eq_some found

/-- What is found by an id has that id. -/
theorem id_of_byId?_eq_some
    {registry : Registry}
    {id : Int}
    {operation : Operation}
    (found : registry.byId? id = some operation) :
    operation.id = id := by
  have same :=
    List.find?_some (p := fun other : Operation => other.id == id) found
  exact eq_of_beq same

/-- What is found by a symbol is registered. -/
theorem mem_of_bySymbol?_eq_some
    {registry : Registry}
    {symbol : String}
    {operation : Operation}
    (found : registry.bySymbol? symbol = some operation) :
    operation ∈ registry.operations :=
  List.mem_of_find?_eq_some found

/-- The symbols in the order of registration. -/
def symbols (registry : Registry) : List String :=
  registry.operations.map Operation.symbol

/-- The operation with an id, or a report of the symbols there are. -/
def get (registry : Registry) (id : Int) : Result Operation :=
  match registry.byId? id with
  | some operation => .ok operation
  | none => .error (.unknownOperator (.id id) registry.symbols)

/-- The operation with a symbol, or a report of the symbols there are. -/
def lookup (registry : Registry) (symbol : String) : Result Operation :=
  match registry.bySymbol? symbol with
  | some operation => .ok operation
  | none => .error (.unknownOperator (.symbol symbol) registry.symbols)

/-- The registered operation that is the same as the given one. -/
def find? (registry : Registry) (operation : Operation) : Option Operation :=
  (registry.byId? operation.id).filter fun registered =>
    registered.isSame operation

/-- The operation itself is registered, not merely one with its id. -/
def contains (registry : Registry) (operation : Operation) : Bool :=
  (registry.find? operation).isSome

/-- The registered operation that is the same as the given one, or a report. -/
def require (registry : Registry) (operation : Operation) : Result Operation :=
  match registry.find? operation with
  | some registered => .ok registered
  | none =>
    .error (.unknownOperator (.symbol operation.symbol) registry.symbols)

/-- Add an operation whose id and symbol are not taken. -/
def add (registry : Registry) (operation : Operation) : Result Registry :=
  if (registry.byId? operation.id).isSome then .error (.idTaken operation.id)
  else if (registry.bySymbol? operation.symbol).isSome then
    .error (.symbolTaken operation.symbol)
  else .ok { registry with operations := registry.operations ++ [operation] }

/-- Make `inverse` the inverse of `base`. -/
def addInverse
    (registry : Registry)
    (base inverse : Operation)
    (transform : Transform) : Result Registry := do
  let base ← registry.require base
  let inverse ← registry.require inverse
  return { registry with
    inverses := registry.inverses.put base.id ⟨inverse, transform⟩
    bases := registry.bases.put inverse.id base }

/-- Let `promoted` stand for repeated terms of `operation`. -/
def addPromotion
    (registry : Registry)
    (operation promoted : Operation) : Result Registry := do
  let operation ← registry.require operation
  let promoted ← registry.require promoted
  return { registry with
    promotions := registry.promotions.put operation.id promoted }

/-- Make `value` the identity element of `operation`. -/
def addIdentity
    (registry : Registry)
    (operation : Operation)
    (value : Expr) : Result Registry := do
  let operation ← registry.require operation
  return { registry with
    identities := registry.identities.put operation.id value }

/-- The inverse of an operation. -/
def inverse? (registry : Registry) (operation : Operation) : Option Inverse :=
  registry.inverses.get? operation.id

/-- The operation that the given one is the inverse of. -/
def base? (registry : Registry) (operation : Operation) : Option Operation :=
  registry.bases.get? operation.id

/-- The operation that stands for repeated terms of the given one. -/
def promotion? (registry : Registry) (operation : Operation) :
    Option Operation :=
  registry.promotions.get? operation.id

/-- The identity element of an operation. -/
def identity? (registry : Registry) (operation : Operation) : Option Expr :=
  registry.identities.get? operation.id

/-- The operation whose terms a node under `operation` holds: the base of an
inverse, or the operation itself. -/
def focusOf (registry : Registry) (operation : Operation) : Operation :=
  (registry.base? operation).getD operation

/-- The first operation with a precedence that is, or is not, commutative. -/
def firstWith
    (registry : Registry)
    (precedence : Precedence)
    (commutative : Bool) : Option Operation :=
  registry.operations.find? fun operation =>
    operation.precedence == precedence && operation.isCommutative == commutative

/-- The operation that plays the part of addition. -/
def additive (registry : Registry) : Option Operation :=
  registry.firstWith .additive true

/-- The operation that plays the part of multiplication. -/
def multiplicative (registry : Registry) : Option Operation :=
  registry.firstWith .multiplicative true

/-- The operation that plays the part of exponentiation. -/
def exponential (registry : Registry) : Option Operation :=
  registry.firstWith .exponential false

/-- The registry on one line. -/
def form (registry : Registry) : String :=
  "OperationRegistry(" ++ ", ".intercalate registry.symbols ++ ")"

/-- The five operations of arithmetic with their usual relations. -/
def standard : Registry where
  operations := Operation.arithmetic
  inverses := [(3, ⟨.quotient, .reciprocal⟩), (1, ⟨.difference, .negate⟩)]
  bases := [(4, .product), (2, .sum)]
  promotions := [(3, .power), (1, .product)]
  identities := [(3, .int 1), (1, .int 0)]

end Registry

/-- A given operation plays a part in a registry: the part is taken by an
operation with the same id. -/
def Operation.plays (operation : Operation) (part : Option Operation) : Bool :=
  part.any fun other => operation.id == other.id

end Symbolic
