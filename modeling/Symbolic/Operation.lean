import Symbolic.Kernel

/-!
# Operations

An operation is a descriptor: how it is written, how strongly it binds, which
laws it obeys and what it computes.  Two operations are the same one exactly
when they have the same name; ids and symbols may be shared by different
operations and matter only to trees and registries.
-/

namespace Symbolic

/-- How strongly an operation binds its operands. -/
inductive Precedence where
  | additive
  | multiplicative
  | exponential
deriving DecidableEq, Repr

/-- The rank of a precedence; the higher one binds more strongly. -/
def Precedence.level : Precedence -> Nat
  | additive => 0
  | multiplicative => 1
  | exponential => 2

/-- A binary operation. -/
structure Operation where
  name : String
  id : Int
  symbol : String
  precedence : Precedence
  isCommutative : Bool
  isRightAssociative : Bool
  kernel : Kernel

namespace Operation

/-- The same operation, not merely one with the same id or symbol. -/
def isSame (left right : Operation) : Bool :=
  left.name == right.name

/-- Addition. -/
def sum : Operation :=
  ⟨"+", 1, "+", .additive, true, false, .sum⟩

/-- Subtraction. -/
def difference : Operation :=
  ⟨"-", 2, "-", .additive, false, false, .difference⟩

/-- Multiplication. -/
def product : Operation :=
  ⟨"*", 3, "*", .multiplicative, true, false, .product⟩

/-- Division. -/
def quotient : Operation :=
  ⟨"/", 4, "/", .multiplicative, false, false, .quotient⟩

/-- Exponentiation, which groups to the right. -/
def power : Operation :=
  ⟨"^", 5, "^", .exponential, false, true, .power⟩

/-- The five operations of arithmetic. -/
def arithmetic : List Operation :=
  [sum, difference, product, quotient, power]

end Operation
end Symbolic
