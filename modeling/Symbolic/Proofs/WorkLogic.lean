import Mathlib
import Symbolic.Memory

/-!
# Invariants of computations with a memory

`Work.Keeps invariant work post` says two things of a computation that starts
with a cache satisfying the invariant: the cache that it leaves satisfies the
invariant again, also when the computation fails, and a result that it returns
satisfies the postcondition.  There is one rule for every way of building a
computation.

The invariants of interest are about single entries, `Cache.Holds`; they survive
every insertion of an entry that satisfies them.

Runs of closed trees are evaluated in many of the modules that build on this
one.  Evaluation rests on equations of the library's lists and state monads that
come with no smaller import than that of all of it, so all of it is imported
here.
-/

namespace Symbolic
namespace Cache

/-- Every remembered result satisfies a predicate, which may mention the
fingerprint it is filed under. -/
def Holds
    (entryHolds : Fingerprint -> Remembered -> Prop)
    (cache : Cache) : Prop :=
  ∀ key, ∀ entry ∈ cache.bucket key, entryHolds key entry

theorem holds_nil (entryHolds : Fingerprint -> Remembered -> Prop) :
    Holds entryHolds [] := by
  intro key entry member
  simp at member

/-- A property of all entries is kept by recording an entry that has it. -/
theorem Holds.insert
    {entryHolds : Fingerprint -> Remembered -> Prop}
    {cache : Cache}
    (holds : cache.Holds entryHolds)
    {key : Fingerprint}
    {entry : Remembered}
    (new : entryHolds key entry)
    (atFront : Bool) :
    (cache.insert key entry atFront).Holds entryHolds := by
  intro other found member
  by_cases same : other = key
  · subst same
    rw [bucket_insert_self] at member
    have either : found = entry ∨ found ∈ cache.bucket other := by
      cases atFront with
      | true => simpa using member
      | false => simpa [or_comm] using member
    rcases either with rfl | old
    · exact new
    · exact holds other found old
  · rw [bucket_insert_of_ne key other entry atFront cache same] at member
    exact holds other found member

/-- An exact search returns the result of an entry with an equal source. -/
theorem firstEqual_eq_some
    {entries : List Remembered}
    {source result : Expr}
    (found : firstEqual entries source = .ok (some result)) :
    ∃ entry ∈ entries, entry.source.equal source = .ok true ∧
      entry.result = result := by
  induction entries with
  | nil => simp [firstEqual] at found
  | cons entry rest inductive_step =>
    cases same : entry.source.equal source with
    | error failure => simp [firstEqual, same, bind, Except.bind] at found
    | ok isEqual =>
      cases isEqual with
      | true =>
        simp [firstEqual, same, bind, Except.bind, pure, Except.pure] at found
        exact ⟨entry, List.mem_cons_self, same, found⟩
      | false =>
        simp [firstEqual, same, bind, Except.bind] at found
        obtain ⟨other, member, equal, result_eq⟩ := inductive_step found
        exact ⟨other, List.mem_cons_of_mem entry member, equal, result_eq⟩

end Cache

namespace Work

variable {α β : Type}

@[simp] theorem outcome_pure (a : α) (memory : Memory) :
    (pure a : Work α).outcome memory = (.ok a, memory) := rfl

@[simp] theorem outcome_throw (failure : Error) (memory : Memory) :
    (throw failure : Work α).outcome memory = (.error failure, memory) := rfl

@[simp] theorem outcome_lift (result : Result α) (memory : Memory) :
    (liftM result : Work α).outcome memory = (result, memory) := rfl

/-- The second run starts in the memory the first one leaves, and does not start
after a failure. -/
theorem outcome_bind
    (work : Work α)
    (next : α -> Work β)
    (memory : Memory) :
    (work >>= next).outcome memory =
      match work.outcome memory with
      | (.ok a, after) => (next a).outcome after
      | (.error failure, after) => (.error failure, after) := by
  simp only [outcome, ExceptT.run, bind, ExceptT.bind, ExceptT.mk, StateT.run,
    StateT.bind, ExceptT.bindCont]
  generalize work memory = reached
  obtain ⟨result, after⟩ := reached
  cases result <;> rfl

@[simp] theorem outcome_note (event : Event) (memory : Memory) :
    (note event).outcome memory =
      (.ok (), { memory with events := event :: memory.events }) := rfl

@[simp] theorem outcome_remember
    (key : Fingerprint)
    (source result : Expr)
    (atFront : Bool)
    (memory : Memory) :
    (remember key source result atFront).outcome memory =
      (.ok (), { memory with cache := memory.cache.insert key ⟨source, result⟩ atFront }) := rfl

@[simp] theorem outcome_findEqual
    (key : Fingerprint)
    (source : Expr)
    (memory : Memory) :
    (findEqual key source).outcome memory =
      (Cache.firstEqual (memory.cache.bucket key) source, memory) := rfl

@[simp] theorem outcome_get (memory : Memory) :
    (get : Work Memory).outcome memory = (.ok memory, memory) := rfl

/-- An isolated run leaves nothing behind but its events. -/
@[simp] theorem outcome_isolated (work : Work α) (memory : Memory) :
    (isolated work).outcome memory =
      ((work.outcome memory).1,
        { memory with events := (work.outcome memory).2.events }) := rfl

theorem outcome_descend
    (settings : Settings)
    (e : Expr)
    (work : Work α)
    (memory : Memory) :
    (descend settings e work).outcome memory =
      if settings.limits.depth ≤ memory.depth then
        (.error (.divergence .depth settings.limits.depth (some e)), memory)
      else
        let (result, after) :=
          work.outcome { memory with depth := memory.depth + 1 }
        (result, { after with depth := after.depth - 1 }) := rfl

/-- A computation keeps an invariant of the cache, whether it fails or not, and
what it returns satisfies a postcondition. -/
def Keeps
    (invariant : Cache -> Prop)
    (work : Work α)
    (post : α -> Prop) : Prop :=
  ∀ memory, invariant memory.cache ->
    invariant (work.outcome memory).2.cache ∧
      ∀ result, (work.outcome memory).1 = .ok result -> post result

namespace Keeps

variable {invariant : Cache -> Prop}

/-- A postcondition may be weakened. -/
theorem mono
    {work : Work α}
    {post post' : α -> Prop}
    (keeps : Keeps invariant work post)
    (weaker : ∀ result, post result -> post' result) :
    Keeps invariant work post' := by
  intro memory holds
  obtain ⟨holdsAfter, good⟩ := keeps memory holds
  exact ⟨holdsAfter, fun result returned =>
    weaker result (good result returned)⟩

/-- Two postconditions of one run hold together. -/
theorem and
    {work : Work α}
    {post post' : α -> Prop}
    (keeps : Keeps invariant work post)
    (keeps' : Keeps invariant work post') :
    Keeps invariant work fun result => post result ∧ post' result := by
  intro memory holds
  obtain ⟨holdsAfter, good⟩ := keeps memory holds
  obtain ⟨-, good'⟩ := keeps' memory holds
  exact ⟨holdsAfter, fun result returned =>
    ⟨good result returned, good' result returned⟩⟩

theorem pure
    {a : α}
    {post : α -> Prop}
    (good : post a) :
    Keeps invariant (Pure.pure a) post := by
  intro memory holds
  refine ⟨holds, ?_⟩
  rintro result ⟨⟩
  exact good

theorem throw
    (failure : Error)
    (post : α -> Prop) :
    Keeps invariant (MonadExcept.throw failure : Work α) post := by
  intro memory holds
  refine ⟨holds, ?_⟩
  rintro result ⟨⟩

/-- A calculation that does not touch the memory keeps every invariant. -/
theorem lift
    {result : Result α}
    {post : α -> Prop}
    (good : ∀ a, result = .ok a -> post a) :
    Keeps invariant (liftM result : Work α) post :=
  fun _ holds => ⟨holds, good⟩

/-- The rule for a sequence of two computations. -/
theorem bind
    {work : Work α}
    {next : α -> Work β}
    {middle : α -> Prop}
    {post : β -> Prop}
    (first : Keeps invariant work middle)
    (second : ∀ a, middle a -> Keeps invariant (next a) post) :
    Keeps invariant (work >>= next) post := by
  intro memory holds
  obtain ⟨holdsBetween, good⟩ := first memory holds
  rw [outcome_bind]
  generalize work.outcome memory = reached at holdsBetween good
  obtain ⟨result, after⟩ := reached
  cases result with
  | ok a => exact second a (good a rfl) after holdsBetween
  | error failure =>
    refine ⟨holdsBetween, ?_⟩
    rintro result ⟨⟩

theorem map
    {work : Work α}
    {f : α -> β}
    {post : β -> Prop}
    (keeps : Keeps invariant work fun a => post (f a)) :
    Keeps invariant (f <$> work) post := by
  rw [map_eq_pure_bind]
  exact bind keeps fun a good => pure good

theorem note (event : Event) :
    Keeps invariant (Work.note event) fun _ => True :=
  fun _ holds => ⟨holds, fun _ _ => trivial⟩

/-- Nothing that an isolated computation remembers is kept. -/
theorem isolated
    {work : Work α}
    {post : α -> Prop}
    (keeps : Keeps invariant work post) :
    Keeps invariant (Work.isolated work) post :=
  fun memory holds => ⟨holds, (keeps memory holds).2⟩

section Entries

variable {entryHolds : Fingerprint -> Remembered -> Prop}

/-- Recording an entry asks for the property of that entry. -/
theorem remember
    {key : Fingerprint}
    {source result : Expr}
    (new : entryHolds key ⟨source, result⟩)
    (atFront : Bool) :
    Keeps (Cache.Holds entryHolds) (Work.remember key source result atFront)
      fun _ => True :=
  fun _ holds => ⟨holds.insert new atFront, fun _ _ => trivial⟩

/-- What is found in the memory is an entry for an equal tree, and has the
property of all entries. -/
theorem findEqual
    {key : Fingerprint}
    {source : Expr}
    {post : Option Expr -> Prop}
    (nothing : post none)
    (found : ∀ entry, entryHolds key entry ->
      entry.source.equal source = .ok true ->
      post (some entry.result)) :
    Keeps (Cache.Holds entryHolds) (Work.findEqual key source) post := by
  intro memory holds
  rw [outcome_findEqual]
  refine ⟨holds, fun result returned => ?_⟩
  cases result with
  | none => exact nothing
  | some result =>
    obtain ⟨entry, member, equal, rfl⟩ := Cache.firstEqual_eq_some returned
    exact found entry (holds key entry member) equal

/-- A search returns the result of an entry with an equal source, or of any
entry of the bucket if searches are tolerant. -/
theorem retrieve
    {settings : Settings}
    {key : Fingerprint}
    {source : Expr}
    {post : Option Expr -> Prop}
    (nothing : post none)
    (found : ∀ entry, entryHolds key entry ->
      entry.source.equal source = .ok true ∨ settings.reusesCollisions = true ->
      post (some entry.result)) :
    Keeps (Cache.Holds entryHolds) (Work.retrieve settings key source)
      post := by
  have exactly : Keeps (Cache.Holds entryHolds) (Work.findEqual key source)
      fun result => result.isSome = true -> post result :=
    findEqual (by simp) fun entry holds equal _ =>
      found entry holds (.inl equal)
  refine bind exactly fun result good => ?_
  cases result with
  | some result => exact pure (good rfl)
  | none =>
    have current : Keeps (Cache.Holds entryHolds) (get : Work Memory)
        fun memory => memory.cache.Holds entryHolds := by
      intro memory holds
      refine ⟨holds, ?_⟩
      rintro result ⟨⟩
      exact holds
    refine bind current fun memory holds => ?_
    cases bucket : memory.cache.bucket key with
    | nil => exact pure nothing
    | cons first rest =>
      have member : first ∈ memory.cache.bucket key := by
        rw [bucket]
        exact List.mem_cons_self
      by_cases tolerant : settings.reusesCollisions = true
      · simp only [tolerant, if_true]
        refine bind (note _) fun _ _ => pure ?_
        exact found first (holds key first member) (.inr tolerant)
      · simp only [tolerant]
        exact pure nothing

end Entries

end Keeps
end Work
end Symbolic
