import Symbolic.Proofs.Equality
import Symbolic.Proofs.Outcome
import Symbolic.Proofs.SuccessfulRuns

/-!
# Exact searches

Not every remembered result has to be one that a simplification may return: it
is enough that a search does not find the others.  `Cache.ServesExcept` says so
of exact searches, apart from those for exempt trees.  While a tree is
simplified, trees that are equal to it are exempt; when its result is
remembered, in front of the bucket, they are served again.
-/

namespace Symbolic

@[simp] theorem Fingerprint.distance_self (key : Fingerprint) :
    key.distance key = 0 := by
  induction key with
  | nil => rfl
  | cons token rest inductive_step => simp [inductive_step]

namespace Cache

/-- An exact search for a tree that is not exempt finds nothing but clean
results. -/
def ServesExcept (clean exempt : Expr -> Prop) (cache : Cache) : Prop :=
  ∀ e result, firstEqual (cache.bucket e.tokens) e = .ok (some result) ->
    exempt e ∨ clean result

/-- An exact search finds nothing but clean results. -/
abbrev Serves (clean : Expr -> Prop) : Cache -> Prop :=
  ServesExcept clean fun _ => False

theorem servesExcept_nil (clean exempt : Expr -> Prop) :
    ServesExcept clean exempt [] := by
  intro e result found
  cases found

theorem ServesExcept.mono
    {clean exempt exempt' : Expr -> Prop}
    {cache : Cache}
    (serves : cache.ServesExcept clean exempt)
    (weaker : ∀ e, exempt e -> exempt' e) :
    cache.ServesExcept clean exempt' :=
  fun e result found => (serves e result found).imp_left (weaker e)

/-- A search that succeeds with a longer bucket succeeds without its last entry
or finds that one. -/
theorem firstEqual_append_eq_some
    {entries : List Remembered}
    {entry : Remembered}
    {e result : Expr}
    (found : firstEqual (entries ++ [entry]) e = .ok (some result)) :
    firstEqual entries e = .ok (some result) ∨
      (entry.source.equal e = .ok true ∧ entry.result = result) := by
  induction entries with
  | nil =>
    obtain ⟨other, member, equal, isResult⟩ := firstEqual_eq_some found
    obtain rfl := List.mem_singleton.1 member
    exact .inr ⟨equal, isResult⟩
  | cons first rest inductive_step =>
    rw [List.cons_append, firstEqual] at found
    obtain ⟨isEqual, compared, found⟩ := Result.bind_eq_ok.1 found
    rw [firstEqual, compared]
    cases isEqual with
    | true => exact .inl found
    | false => exact inductive_step found

/-- A search that succeeds in front of a bucket finds the first entry or one of
the others. -/
theorem firstEqual_cons_eq_some
    {entries : List Remembered}
    {entry : Remembered}
    {e result : Expr}
    (found : firstEqual (entry :: entries) e = .ok (some result)) :
    (entry.source.equal e = .ok true ∧ entry.result = result) ∨
      (entry.source.equal e = .ok false ∧
        firstEqual entries e = .ok (some result)) := by
  rw [firstEqual] at found
  obtain ⟨isEqual, compared, found⟩ := Result.bind_eq_ok.1 found
  cases isEqual with
  | true =>
    cases found
    exact .inl ⟨compared, rfl⟩
  | false => exact .inr ⟨compared, found⟩

/-- Any result may be remembered that is clean wherever it is not exempt. -/
theorem ServesExcept.insert
    {clean exempt : Expr -> Prop}
    {cache : Cache}
    (serves : cache.ServesExcept clean exempt)
    (key : Fingerprint)
    {source result : Expr}
    (allowed : ∀ e, source.equal e = .ok true -> exempt e ∨ clean result)
    (atFront : Bool) :
    (cache.insert key ⟨source, result⟩ atFront).ServesExcept clean exempt := by
  intro e found searched
  by_cases same : e.tokens = key
  · rw [same, bucket_insert_self] at searched
    have old (before : firstEqual (cache.bucket key) e = .ok (some found)) :
        exempt e ∨ clean found := by
      rw [← same] at before
      exact serves e found before
    cases atFront with
    | true =>
      rcases firstEqual_cons_eq_some searched with ⟨equal, rfl⟩ | ⟨-, before⟩
      · exact allowed e equal
      · exact old before
    | false =>
      rcases firstEqual_append_eq_some searched with before | ⟨equal, rfl⟩
      · exact old before
      · exact allowed e equal
  · rw [bucket_insert_of_ne key e.tokens _ atFront cache same] at searched
    exact serves e found searched

/-- A clean result in front of its bucket makes up for the trees that are equal
to its source. -/
theorem ServesExcept.settle
    {clean : Expr -> Prop}
    {cache : Cache}
    {source : Expr}
    (serves : cache.ServesExcept clean fun e => source.equal e = .ok true)
    {result : Expr}
    (isClean : clean result) :
    (cache.insert source.tokens ⟨source, result⟩ true).Serves clean := by
  intro e found searched
  by_cases same : e.tokens = source.tokens
  · rw [same, bucket_insert_self] at searched
    rcases firstEqual_cons_eq_some searched with ⟨-, rfl⟩ | ⟨unequal, before⟩
    · exact .inr isClean
    · rw [← same] at before
      refine .inr ((serves e found before).resolve_left fun equal => ?_)
      rw [equal] at unequal
      cases unequal
  · rw [bucket_insert_of_ne source.tokens e.tokens _ true cache same]
      at searched
    refine .inr ((serves e found searched).resolve_left fun equal => ?_)
    exact same (Expr.tokens_of_equal equal).symm

end Cache

namespace Work

/-- Searches that are not tolerant are exact. -/
theorem outcome_retrieve_of_exact
    {settings : Settings}
    (exact : settings.reusesCollisions = false)
    (key : Fingerprint)
    (e : Expr)
    (memory : Memory) :
    (retrieve settings key e).outcome memory =
      (findEqual key e).outcome memory := by
  unfold retrieve
  rw [outcome_bind, outcome_findEqual]
  cases Cache.firstEqual (memory.cache.bucket key) e with
  | error failure => rfl
  | ok found =>
    cases found with
    | some result => rfl
    | none =>
      simp only [outcome_bind, outcome_get]
      split <;> simp [exact]

/-- What an exact search finds in a memory that serves. -/
theorem Keeps.findEqual_serves
    {clean exempt : Expr -> Prop}
    {key : Fingerprint}
    {e : Expr}
    (hashed : e.fingerprint = .ok key) :
    (Work.findEqual key e).Keeps (Cache.ServesExcept clean exempt) fun found =>
      ∀ result, found = some result -> exempt e ∨ clean result := by
  intro memory serves
  rw [outcome_findEqual]
  refine ⟨serves, ?_⟩
  rintro _ returned result rfl
  rw [Expr.eq_tokens_of_fingerprint hashed] at returned
  exact serves e result returned

theorem Keeps.retrieve_serves
    {settings : Settings}
    (exact : settings.reusesCollisions = false)
    {clean exempt : Expr -> Prop}
    {key : Fingerprint}
    {e : Expr}
    (hashed : e.fingerprint = .ok key) :
    (Work.retrieve settings key e).Keeps (Cache.ServesExcept clean exempt)
      fun found =>
      ∀ result, found = some result -> exempt e ∨ clean result := by
  intro memory serves
  rw [outcome_retrieve_of_exact exact]
  exact Keeps.findEqual_serves hashed memory serves

theorem Keeps.remember_serves
    {clean exempt : Expr -> Prop}
    (key : Fingerprint)
    {source result : Expr}
    (allowed : ∀ e, source.equal e = .ok true -> exempt e ∨ clean result)
    (atFront : Bool) :
    (Work.remember key source result atFront).Keeps
      (Cache.ServesExcept clean exempt) fun _ => True :=
  fun _ serves => ⟨serves.insert key allowed atFront, fun _ _ => trivial⟩

theorem Reaches.remember_serves
    {clean exempt exempt' : Expr -> Prop}
    (weaker : ∀ e, exempt e -> exempt' e)
    (key : Fingerprint)
    {source result : Expr}
    (allowed : ∀ e, source.equal e = .ok true -> exempt' e ∨ clean result)
    (atFront : Bool) :
    (Work.remember key source result atFront).Reaches
      (Cache.ServesExcept clean exempt)
      (fun _ => True) (Cache.ServesExcept clean exempt') :=
  fun _ serves _ _ => ⟨trivial, (serves.mono weaker).insert key allowed atFront⟩

theorem Reaches.remember_settles
    {clean : Expr -> Prop}
    {source result : Expr}
    (isClean : clean result) :
    (Work.remember source.tokens source result true).Reaches
      (Cache.ServesExcept clean (source.equal · = .ok true))
        (fun _ => True) (Cache.Serves clean) :=
  fun _ serves _ _ => ⟨trivial, serves.settle isClean⟩

end Work
end Symbolic
