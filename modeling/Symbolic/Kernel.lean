import Symbolic.Number.Machine

/-!
# Kernels of operations

A kernel holds the three ways in which an operation computes: exactly on the
constants of a tree, in 64 bits on words and in binary floating point on
doubles.
-/

namespace Symbolic

/-- What an operation computes. -/
structure Kernel where
  exact : Number -> Number -> Number.Outcome
  word : Int64 -> Int64 -> Number.WordOutcome
  double : Float -> Float -> Float

namespace Kernel

/-- Sums. -/
def sum : Kernel :=
  ⟨Number.add, Number.wordwise (· + ·), (· + ·)⟩

/-- Differences. -/
def difference : Kernel :=
  ⟨Number.sub, Number.wordwise (· - ·), (· - ·)⟩

/-- Products. -/
def product : Kernel :=
  ⟨Number.mul, Number.wordwise (· * ·), (· * ·)⟩

/-- Quotients. -/
def quotient : Kernel :=
  ⟨Number.div, Number.wordQuotient, (· / ·)⟩

/-- Powers. -/
def power : Kernel :=
  ⟨Number.pow, Number.wordPow, Float.pow⟩

/-- Remainders with the sign of the divisor. -/
def remainder : Kernel :=
  ⟨Number.remainder, Number.wordwise Number.wordRemainder, Number.realRemainder⟩

/-- The larger of two numbers. -/
def larger : Kernel :=
  ⟨Number.larger, Number.wordwise fun a b => if a < b then b else a,
    Number.largerDouble⟩

/-- The smaller of two numbers. -/
def smaller : Kernel :=
  ⟨Number.smaller, Number.wordwise fun a b => if b < a then b else a,
    Number.smallerDouble⟩

end Kernel
end Symbolic
