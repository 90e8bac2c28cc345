import Symbolic.Simplification.Engine

/-!
# Simplification contexts

A context keeps what simplifications remember from one call to the next, and how
many levels of nesting are entered.  Both are what the computation of a call
leaves, also when the call fails.
-/

namespace Symbolic

/-- Settings, remembered results and the present depth. -/
structure Context where
  settings : Settings
  depth : Nat
  cache : Cache

namespace Context

/-- A fresh context. -/
def ofSettings (settings : Settings) : Context :=
  ⟨settings, 0, []⟩

/-- The levels that are left. -/
def levels (context : Context) : Nat :=
  context.settings.limits.depth - context.depth

/-- The simplification of a context, one level below the present one. -/
def recursion (context : Context) : Recursion :=
  Symbolic.simplify context.settings

/-- Run a computation in a context.  The result is its outcome, the context it
leaves and the events in order. -/
def run (context : Context) (work : Work α) : Result α × Context × List Event :=
  let (result, memory) := work.outcome ⟨context.cache, context.depth, []⟩
  (result, ⟨context.settings, memory.depth, memory.cache⟩,
    memory.events.reverse)

/-- Simplify a tree. -/
def simplify (context : Context) (e : Expr) : Work Expr :=
  context.recursion e

/-- Collect the repeated terms of a chain. -/
def collect (context : Context) (focus : Operation) (terms : List Expr) :
    Work (List Expr) :=
  Symbolic.collect context.settings context.recursion focus terms

/-- How often a tree repeats another one. -/
def multiple
    (context : Context)
    (operation : Operation)
    (base target : Expr) : Work (Option Expr) :=
  Symbolic.multiple context.settings context.recursion operation base target

/-- The context some levels further down, unless that is too deep. -/
def below (context : Context) (count : Nat) (e : Expr) : Result Context :=
  if count ≤ context.levels then
    .ok { context with depth := context.depth + count }
  else .error (.divergence .depth context.settings.limits.depth (some e))

/-- The number of buckets. -/
def size (context : Context) : Nat :=
  context.cache.length

/-- The context on one line. -/
def form (context : Context) : String :=
  "SimplificationContext(buckets=" ++ Decimal.numeral context.cache.length ++
    ", entries=" ++ Decimal.numeral context.cache.entryCount ++
    ", depth=" ++ Decimal.numeral context.depth ++ ")"

end Context
end Symbolic
