import Symbolic.Event
import Symbolic.Expr.Equality
import Symbolic.Expr.Fingerprint
import Symbolic.Registry.Basic

/-!
# Memory of a simplification

Results are remembered in buckets by the fingerprint of their source.  A bucket
only grows; its first entry is the preferred one.  An exact search compares the
sources, a tolerant one may settle for the first result of the bucket.

`Work` is a computation that may fail and that carries the memory, the number of
levels that are entered and the events noted so far; all of them survive a
failure.
-/

namespace Symbolic

/-- A tree that was simplified and its result. -/
structure Remembered where
  source : Expr
  result : Expr

/-- The remembered results by fingerprint. -/
abbrev Cache := List (Fingerprint × List Remembered)

namespace Cache

/-- The results remembered under a fingerprint. -/
def bucket (cache : Cache) (key : Fingerprint) : List Remembered :=
  (cache.lookup key).getD []

/-- There are results under a fingerprint. -/
def contains (cache : Cache) (key : Fingerprint) : Bool :=
  (cache.lookup key).isSome

/-- Remember a result, in front of its bucket or at the end. -/
def insert (key : Fingerprint) (entry : Remembered) (atFront : Bool) :
    Cache -> Cache
  | [] => [(key, [entry])]
  | (other, entries) :: rest =>
    if other = key then
      (other, if atFront then entry :: entries else entries ++ [entry]) :: rest
    else (other, entries) :: insert key entry atFront rest

/-- The number of remembered results. -/
def entryCount : Cache -> Nat
  | [] => 0
  | (_, entries) :: rest => entries.length + entryCount rest

/-- The first result whose source equals the given tree. -/
def firstEqual : List Remembered -> Expr -> Result (Option Expr)
  | [], _ => .ok none
  | entry :: rest, source => do
    if ← entry.source.equal source then return some entry.result
    else firstEqual rest source

@[simp] theorem bucket_nil (key : Fingerprint) : bucket [] key = [] := rfl

/-- A result goes to one end of the bucket of its key. -/
theorem bucket_insert_self
    (key : Fingerprint)
    (entry : Remembered)
    (atFront : Bool)
    (cache : Cache) :
    (insert key entry atFront cache).bucket key =
      if atFront then entry :: cache.bucket key
      else cache.bucket key ++ [entry] := by
  induction cache with
  | nil => cases atFront <;> simp [insert, bucket]
  | cons head rest inductive_step =>
    obtain ⟨other, entries⟩ := head
    by_cases same : other = key
    · subst same
      simp [insert, bucket]
    · have different : (key == other) = false := by
        simpa using fun h => same h.symm
      simpa [insert, same, bucket, List.lookup_cons, different]
        using inductive_step

/-- All other buckets stay as they are. -/
theorem bucket_insert_of_ne
    (key other : Fingerprint)
    (entry : Remembered)
    (atFront : Bool)
    (cache : Cache)
    (different : other ≠ key) :
    (insert key entry atFront cache).bucket other = cache.bucket other := by
  induction cache with
  | nil =>
    have : (other == key) = false := by simpa using different
    simp [insert, bucket, List.lookup_cons, this]
  | cons head rest inductive_step =>
    obtain ⟨first, entries⟩ := head
    by_cases same : first = key
    · subst same
      have : (other == first) = false := by simpa using different
      simp [insert, bucket, List.lookup_cons, this]
    · by_cases here : other = first
      · subst here
        simp [insert, same, bucket]
      · have : (other == first) = false := by simpa using here
        simpa [insert, same, bucket, List.lookup_cons, this]
          using inductive_step

end Cache

/-- The limits of a simplification: passes for each node, and nested levels. -/
structure Limits where
  iterations : Nat
  depth : Nat
deriving DecidableEq, Repr

/-- The usual limits. -/
def Limits.standard : Limits :=
  ⟨64, 100⟩

/-- Limits given by integers, which must be positive. -/
def Limits.ofInts (iterations depth : Int) : Result Limits :=
  if iterations < 1 then .error (.limitTooSmall .iterations iterations)
  else if depth < 1 then .error (.limitTooSmall .depth depth)
  else .ok ⟨iterations.toNat, depth.toNat⟩

/-- What stays fixed during a simplification.  With `reusesCollisions` a
tolerant search takes the first result of a bucket when no source is equal. -/
structure Settings where
  registry : Registry
  limits : Limits
  reusesCollisions : Bool

/-- The standard registry and limits, with tolerant searches. -/
def Settings.standard : Settings :=
  ⟨.standard, .standard, true⟩

/-- What changes during a simplification: the remembered results, the number of
levels that are entered, and the events, the latest one first. -/
structure Memory where
  cache : Cache
  depth : Nat
  events : List Event

/-- The memory in which nothing has happened yet. -/
def Memory.empty : Memory :=
  ⟨[], 0, []⟩

/-- A computation with a memory that may fail. -/
abbrev Work := ExceptT Error (StateM Memory)

namespace Work

/-- The outcome of a computation and the memory it leaves. -/
def outcome (work : Work α) (memory : Memory) : Result α × Memory :=
  work.run.run memory

/-- Note an event. -/
def note (event : Event) : Work Unit :=
  modify fun memory => { memory with events := event :: memory.events }

/-- Remember a result. -/
def remember
    (key : Fingerprint)
    (source result : Expr)
    (atFront : Bool) : Work Unit :=
  modify fun memory =>
    { memory with cache := memory.cache.insert key ⟨source, result⟩ atFront }

/-- The remembered result of an equal tree. -/
def findEqual (key : Fingerprint) (source : Expr) : Work (Option Expr) := do
  let memory ← get
  Cache.firstEqual (memory.cache.bucket key) source

/-- The remembered result of an equal tree, or with tolerant searches the first
result under the same fingerprint. -/
def retrieve
    (settings : Settings)
    (key : Fingerprint)
    (source : Expr) : Work (Option Expr) := do
  match ← findEqual key source with
  | some result => return some result
  | none =>
    match (← get).cache.bucket key with
    | [] => return none
    | first :: _ =>
      if settings.reusesCollisions then
        note (.collision source first.result)
        return some first.result
      else return none

/-- Run a computation on a copy of the memory that is given up afterwards,
whether it succeeds or fails.  Only the events that it notes are kept. -/
def isolated (work : Work α) : Work α :=
  fun memory =>
    let (result, after) := work memory
    (result, { memory with events := after.events })

/-- Run a computation one level further down, unless all levels are entered
already.  The level is left again whether the computation succeeds or fails. -/
def descend
    (settings : Settings)
    (e : Expr)
    (work : Work α) : Work α :=
  fun memory =>
    if settings.limits.depth ≤ memory.depth then
      (.error (.divergence .depth settings.limits.depth (some e)), memory)
    else
      let (result, after) := work { memory with depth := memory.depth + 1 }
      (result, { after with depth := after.depth - 1 })

end Work
end Symbolic
