import Symbolic.Proofs.ContextMemory

/-!
# Which failures a computation can have

`Work.Ends invariant expected work post` adds to `Work.Keeps` that a computation
which starts with a cache satisfying the invariant fails, if at all, with an
error that is expected.  It thus either returns what it should or stops in a
foreseen way.

There is again one rule for every way of building a computation.  A search adds
no failure of its own as long as nothing foreign is compared.
-/

namespace Symbolic
namespace Result

variable {α β : Type} {expected : Error -> Prop}

/-- What is returned satisfies a postcondition, and a failure is an expected
one. -/
def Ends (expected : Error -> Prop) (result : Result α) (post : α -> Prop) :
    Prop :=
  match result with
  | .ok a => post a
  | .error failure => expected failure

namespace Ends

theorem of_eq_ok
    {result : Result α}
    {a : α}
    {post : α -> Prop}
    (returned : result = .ok a)
    (good : post a) :
    Ends expected result post := by
  rw [returned]
  exact good

theorem returned
    {result : Result α}
    {post : α -> Prop}
    (ends : Ends expected result post)
    {a : α}
    (isOk : result = .ok a) :
    post a := by
  rw [isOk] at ends
  exact ends

theorem failed
    {result : Result α}
    {post : α -> Prop}
    (ends : Ends expected result post)
    {failure : Error}
    (isError : result = .error failure) :
    expected failure := by
  rw [isError] at ends
  exact ends

/-- What the first calculation gives back is handed to the second one. -/
theorem bind
    {first : Result α}
    {next : α -> Result β}
    {middle : α -> Prop}
    {post : β -> Prop}
    (ends : Ends expected first middle)
    (nextEnds : ∀ a, middle a -> Ends expected (next a) post) :
    Ends expected (first >>= next) post := by
  cases first with
  | ok a => exact nextEnds a ends
  | error failure => exact ends

theorem mono
    {expected' : Error -> Prop}
    {result : Result α}
    {post post' : α -> Prop}
    (ends : Ends expected result post)
    (weakerExpected : ∀ failure, expected failure -> expected' failure)
    (weaker : ∀ a, post a -> post' a) :
    Ends expected' result post' := by
  cases result with
  | ok a => exact weaker a ends
  | error failure => exact weakerExpected failure ends

/-- Two lists that are computed one after the other and appended. -/
theorem append
    {first second : Result (List α)}
    {p : α -> Prop}
    (ends : Ends expected first fun terms => ∀ term ∈ terms, p term)
    (secondEnds : Ends expected second fun terms => ∀ term ∈ terms, p term) :
    Ends expected (do return (← first) ++ (← second)) fun terms =>
      ∀ term ∈ terms, p term :=
  bind ends fun _ ofFirst => bind secondEnds fun _ ofSecond =>
    fun term member =>
      (List.mem_append.1 member).elim (ofFirst term) (ofSecond term)

end Ends
end Result

namespace Work

variable {α β : Type}

/-- A computation keeps an invariant of the cache, what it returns satisfies a
postcondition, and it fails only with expected errors. -/
structure Ends
    (invariant : Cache -> Prop)
    (expected : Error -> Prop)
    (work : Work α)
    (post : α -> Prop) : Prop where
  keeps : Keeps invariant work post
  fails : ∀ memory, invariant memory.cache ->
    ∀ failure, (work.outcome memory).1 = .error failure -> expected failure

namespace Ends

variable {invariant : Cache -> Prop} {expected : Error -> Prop}

/-- The outcome of a run, one way or the other. -/
theorem outcome
    {work : Work α}
    {post : α -> Prop}
    (ends : Ends invariant expected work post)
    {memory : Memory}
    (holds : invariant memory.cache) :
    (work.outcome memory).1.Ends expected post := by
  cases reached : (work.outcome memory).1 with
  | ok a => exact (ends.keeps memory holds).2 a reached
  | error failure => exact ends.fails memory holds failure reached

theorem mono
    {work : Work α}
    {post post' : α -> Prop}
    (ends : Ends invariant expected work post)
    (weaker : ∀ result, post result -> post' result) :
    Ends invariant expected work post' :=
  ⟨ends.keeps.mono weaker, ends.fails⟩

theorem pure
    {a : α}
    {post : α -> Prop}
    (good : post a) :
    Ends invariant expected (Pure.pure a) post :=
  ⟨.pure good, by simp⟩

theorem throw
    {failure : Error}
    (isExpected : expected failure)
    (post : α -> Prop) :
    Ends invariant expected (MonadExcept.throw failure : Work α) post := by
  refine ⟨.throw failure post, ?_⟩
  rintro memory _ _ ⟨⟩
  exact isExpected

/-- A calculation that does not touch the memory ends in a run as it ends by
itself. -/
theorem lift
    {result : Result α}
    {post : α -> Prop}
    (ends : result.Ends expected post) :
    Ends invariant expected (liftM result : Work α) post := by
  refine ⟨.lift ?_, ?_⟩
  · rintro a rfl
    exact ends
  · rintro memory _ failure (rfl : result = .error failure)
    exact ends

/-- The rule for a sequence of two computations. -/
theorem bind
    {work : Work α}
    {next : α -> Work β}
    {middle : α -> Prop}
    {post : β -> Prop}
    (first : Ends invariant expected work middle)
    (second : ∀ a, middle a -> Ends invariant expected (next a) post) :
    Ends invariant expected (work >>= next) post := by
  refine ⟨.bind first.keeps fun a good => (second a good).keeps, ?_⟩
  intro memory holds
  obtain ⟨holdsBetween, good⟩ := first.keeps memory holds
  have firstFails := first.fails memory holds
  rw [outcome_bind]
  generalize work.outcome memory = reached at holdsBetween good firstFails
  obtain ⟨result, after⟩ := reached
  cases result with
  | ok a => exact (second a (good a rfl)).fails after holdsBetween
  | error failure =>
    rintro _ ⟨⟩
    exact firstFails failure rfl

theorem map
    {work : Work α}
    {f : α -> β}
    {post : β -> Prop}
    (ends : Ends invariant expected work fun a => post (f a)) :
    Ends invariant expected (f <$> work) post := by
  rw [map_eq_pure_bind]
  exact bind ends fun a good => pure good

theorem note (event : Event) :
    Ends invariant expected (Work.note event) fun _ => True :=
  ⟨.note event, by simp⟩

theorem isolated
    {work : Work α}
    {post : α -> Prop}
    (ends : Ends invariant expected work post) :
    Ends invariant expected (Work.isolated work) post :=
  ⟨.isolated ends.keeps, ends.fails⟩

section Entries

variable {entryHolds : Fingerprint -> Remembered -> Prop}

theorem remember
    {key : Fingerprint}
    {source result : Expr}
    (new : entryHolds key ⟨source, result⟩)
    (atFront : Bool) :
    Ends (Cache.Holds entryHolds) expected
      (Work.remember key source result atFront) fun _ => True :=
  ⟨.remember new atFront, by simp⟩

variable (comparable : ∀ key entry, entryHolds key entry ->
  entry.source.foreign? = none)
  {key : Fingerprint} {source : Expr} (noForeign : source.foreign? = none)

include comparable noForeign

/-- A search among entries that can be compared does not fail. -/
theorem exists_firstEqual
    (key : Fingerprint)
    {cache : Cache}
    (holds : cache.Holds entryHolds) :
    ∃ found, Cache.firstEqual (cache.bucket key) source = .ok found := by
  obtain ⟨found, searched, -⟩ := Cache.exists_firstEqual
    (fun entry member => comparable key entry (holds key entry member))
      noForeign
  exact ⟨found, searched⟩

/-- Looking up an entry cannot fail, since no entry holds a foreign object. -/
theorem findEqual
    {post : Option Expr -> Prop}
    (keeps : Keeps (Cache.Holds entryHolds) (Work.findEqual key source) post) :
    Ends (Cache.Holds entryHolds) expected (Work.findEqual key source)
      post := by
  refine ⟨keeps, fun memory holds failure failed => ?_⟩
  obtain ⟨found, searched⟩ := exists_firstEqual comparable noForeign key holds
  rw [outcome_findEqual, searched] at failed
  cases failed

theorem retrieve
    {settings : Settings}
    {post : Option Expr -> Prop}
    (keeps :
      Keeps (Cache.Holds entryHolds) (Work.retrieve settings key source) post) :
    Ends (Cache.Holds entryHolds) expected (Work.retrieve settings key source)
      post := by
  refine ⟨keeps, fun memory holds failure failed => ?_⟩
  obtain ⟨found, searched⟩ := exists_firstEqual comparable noForeign key holds
  rw [(outcome_retrieve settings key source memory).1, Cache.answer, searched]
    at failed
  cases failed

end Entries

end Ends
end Work
end Symbolic
