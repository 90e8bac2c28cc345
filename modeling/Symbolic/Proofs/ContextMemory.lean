import Symbolic.Proofs.MemoryGrowth

/-!
# What a context remembers

Two invariants of the memory of a context.  Every entry is filed under the
fingerprint of its source, so that an exact search, which looks into one bucket
only, finds a result exactly when some entry anywhere has an equal source.  And
a tree that was answered once is answered the same way ever after: no later
entry can come before the one that a search for it picks.
-/

namespace Symbolic
namespace Cache

/-! ## Filing -/

/-- Every remembered result is filed under the fingerprint of its tree, in the
only bucket of that fingerprint. -/
structure IsFiled (cache : Cache) : Prop where
  unique : (cache.map Prod.fst).Nodup
  filed : ∀ key entries, (key, entries) ∈ cache ->
    ∀ entry ∈ entries, entry.source.fingerprint = .ok key

theorem isFiled_nil : IsFiled [] :=
  ⟨List.nodup_nil, by simp⟩

/-- Inserting leaves the fingerprints alone or adds a new one. -/
theorem keys_insert
    (key : Fingerprint)
    (entry : Remembered)
    (atFront : Bool)
    (cache : Cache) :
    (cache.insert key entry atFront).map Prod.fst =
      if key ∈ cache.map Prod.fst then cache.map Prod.fst
      else cache.map Prod.fst ++ [key] := by
  induction cache with
  | nil => simp [insert]
  | cons head rest inductive_step =>
    obtain ⟨other, entries⟩ := head
    by_cases same : other = key
    · simp [insert, same]
    · have different : key ≠ other := fun h => same h.symm
      simp only [insert, same, if_false, List.map_cons, inductive_step,
        List.mem_cons, different, false_or]
      split <;> simp

/-- A bucket after an insertion holds old entries and, under the right
fingerprint, the new one. -/
theorem mem_of_mem_insert
    {key other : Fingerprint}
    {entry found : Remembered}
    {entries : List Remembered}
    {atFront : Bool}
    {cache : Cache}
    (filed : (other, entries) ∈ cache.insert key entry atFront)
    (member : found ∈ entries) :
    (other = key ∧ found = entry) ∨ ∃ before,
      (other, before) ∈ cache ∧ found ∈ before := by
  induction cache with
  | nil =>
    simp only [insert, List.mem_singleton, Prod.mk.injEq] at filed
    obtain ⟨rfl, rfl⟩ := filed
    exact .inl ⟨rfl, List.mem_singleton.1 member⟩
  | cons head rest inductive_step =>
    obtain ⟨first, old⟩ := head
    simp only [insert] at filed
    split at filed
    · next same =>
      rcases List.mem_cons.1 filed with isHead | inRest
      · obtain ⟨rfl, rfl⟩ := Prod.mk.inj isHead
        have either : found = entry ∨ found ∈ old := by
          cases atFront <;> simpa [or_comm] using member
        rcases either with rfl | inOld
        · exact .inl ⟨same, rfl⟩
        · exact .inr ⟨old, List.mem_cons_self, inOld⟩
      · exact .inr ⟨entries, List.mem_cons_of_mem _ inRest, member⟩
    · rcases List.mem_cons.1 filed with isHead | inRest
      · cases isHead
        exact .inr ⟨entries, List.mem_cons_self, member⟩
      · refine (inductive_step inRest).imp_right ?_
        rintro ⟨before, inCache, inBefore⟩
        exact ⟨before, List.mem_cons_of_mem _ inCache, inBefore⟩

/-- When the fingerprints are distinct, a bucket is what is listed under its
fingerprint. -/
theorem bucket_eq_of_mem
    {cache : Cache}
    (unique : (cache.map Prod.fst).Nodup)
    {key : Fingerprint}
    {entries : List Remembered}
    (listed : (key, entries) ∈ cache) :
    cache.bucket key = entries := by
  induction cache with
  | nil => cases listed
  | cons head rest inductive_step =>
    obtain ⟨other, old⟩ := head
    obtain ⟨notInRest, restUnique⟩ := List.nodup_cons.1 unique
    rcases List.mem_cons.1 listed with isHead | inRest
    · cases isHead
      simp [bucket]
    · have different : (key == other) = false := by
        rw [beq_eq_false_iff_ne]
        rintro rfl
        exact notInRest (List.mem_map.2 ⟨_, inRest, rfl⟩)
      have same := inductive_step restUnique inRest
      simpa [bucket, List.lookup_cons, different] using same

/-- What is in a bucket is listed under its fingerprint. -/
theorem exists_mem_of_mem_bucket
    {cache : Cache}
    {key : Fingerprint}
    {entry : Remembered}
    (member : entry ∈ cache.bucket key) :
    ∃ entries, (key, entries) ∈ cache ∧ entry ∈ entries := by
  unfold bucket at member
  cases found : cache.lookup key with
  | none => simp [found] at member
  | some entries =>
    rw [found] at member
    obtain ⟨before, after, rfl, -⟩ := List.lookup_eq_some_iff.1 found
    exact ⟨entries, by simp, member⟩

theorem IsFiled.insert
    {cache : Cache}
    (isFiled : cache.IsFiled)
    {source : Expr}
    (noForeign : source.foreign? = none)
    (result : Expr)
    (atFront : Bool) :
    (cache.insert source.tokens ⟨source, result⟩ atFront).IsFiled where
  unique := by
    rw [keys_insert]
    split
    · exact isFiled.unique
    · next new =>
      refine List.nodup_append.2 ⟨isFiled.unique, by simp, ?_⟩
      rintro key inKeys _ isNew rfl
      obtain rfl := List.mem_singleton.1 isNew
      exact new inKeys
  filed := by
    intro key entries listed found member
    rcases mem_of_mem_insert listed member with
      ⟨rfl, rfl⟩ | ⟨before, inCache, inBefore⟩
    · exact Expr.fingerprint_eq_ok source noForeign
    · exact isFiled.filed key before inCache found inBefore

theorem filed_lasting (settings : Settings) :
    Engine.Lasting settings IsFiled fun _ => True where
  misses := fun _ _ _ _ _ => trivial
  inserts := fun _ _ result atFront noForeign _ isFiled =>
    isFiled.insert noForeign result atFront

/-- A search among entries without foreign objects says whether one of them has
an equal source. -/
theorem exists_firstEqual
    {entries : List Remembered}
    (noForeign : ∀ entry ∈ entries, entry.source.foreign? = none)
    {e : Expr}
    (noForeign' : e.foreign? = none) :
    ∃ found, firstEqual entries e = .ok found ∧
      (found.isSome = true ↔ ∃ entry ∈ entries,
        entry.source.equal e = .ok true) := by
  induction entries with
  | nil => exact ⟨none, rfl, by simp⟩
  | cons entry rest inductive_step =>
    obtain ⟨headForeign, restForeign⟩ := List.forall_mem_cons.1 noForeign
    obtain ⟨isEqual, compared⟩ := Expr.exists_equal_eq_ok headForeign noForeign'
    rw [firstEqual, compared]
    cases isEqual with
    | true => exact ⟨some entry.result, rfl, by simp [compared]⟩
    | false =>
      obtain ⟨found, searched, isFound⟩ := inductive_step restForeign
      exact ⟨found, searched, by simp [isFound, compared]⟩

/-- In a filed memory, an exact search finds a result exactly when some entry
anywhere has an equal source. -/
theorem IsFiled.findEqual
    {cache : Cache}
    (isFiled : cache.IsFiled)
    {key : Fingerprint}
    {e : Expr}
    (hashed : e.fingerprint = .ok key) :
    ∃ found, firstEqual (cache.bucket key) e = .ok found ∧
      (found.isSome = true ↔
        ∃ other entries, (other, entries) ∈ cache ∧
          ∃ entry ∈ entries, entry.source.equal e = .ok true) := by
  have noForeign (entry : Remembered) (member : entry ∈ cache.bucket key) :
      entry.source.foreign? = none := by
    obtain ⟨entries, listed, member⟩ := exists_mem_of_mem_bucket member
    exact Expr.foreign?_of_fingerprint
      (isFiled.filed key entries listed entry member)
  obtain ⟨found, searched, isFound⟩ :=
    exists_firstEqual noForeign (Expr.foreign?_of_fingerprint hashed)
  refine ⟨found, searched, isFound.trans ⟨?_, ?_⟩⟩
  · rintro ⟨entry, member, equal⟩
    obtain ⟨entries, listed, member⟩ := exists_mem_of_mem_bucket member
    exact ⟨key, entries, listed, entry, member, equal⟩
  · rintro ⟨other, entries, listed, entry, member, equal⟩
    have filed := isFiled.filed other entries listed entry member
    obtain rfl : other = key := by
      rw [Expr.eq_tokens_of_fingerprint filed,
        Expr.eq_tokens_of_fingerprint hashed, Expr.tokens_of_equal equal]
    rw [bucket_eq_of_mem isFiled.unique listed]
    exact ⟨entry, member, equal⟩

/-! ## Order -/

/-- A bucket keeps its entries in their order when something is inserted. -/
theorem bucket_sublist_insert
    (key other : Fingerprint)
    (entry : Remembered)
    (atFront : Bool)
    (cache : Cache) :
    (cache.bucket other).Sublist
      ((cache.insert key entry atFront).bucket other) := by
  by_cases same : other = key
  · subst same
    rw [bucket_insert_self]
    cases atFront with
    | true => exact List.sublist_cons_self entry _
    | false => exact List.sublist_append_left _ [entry]
  · rw [bucket_insert_of_ne key other entry atFront cache same]

theorem sublist_lasting (settings : Settings) (before : Cache) :
    Engine.Lasting settings
      (fun cache => ∀ key, (before.bucket key).Sublist (cache.bucket key))
      fun _ => True where
  misses := fun _ _ _ _ _ => trivial
  inserts := fun cache source result atFront _ _ kept key =>
    (kept key).trans
      (bucket_sublist_insert source.tokens key ⟨source, result⟩ atFront cache)

/-! ## Answers -/

/-- A search that succeeds in a bucket succeeds in the same way when something
is added at the end. -/
theorem firstEqual_append
    {entries : List Remembered}
    {e result : Expr}
    (found : firstEqual entries e = .ok (some result))
    (entry : Remembered) :
    firstEqual (entries ++ [entry]) e = .ok (some result) := by
  induction entries with
  | nil => cases found
  | cons first rest inductive_step =>
    rw [firstEqual] at found
    obtain ⟨isEqual, compared, found⟩ := Result.bind_eq_ok.1 found
    rw [List.cons_append, firstEqual, compared]
    cases isEqual with
    | true => exact found
    | false => exact inductive_step found

/-- A search finds a tree that was put in front of its bucket. -/
theorem answer_insert_self
    (settings : Settings)
    {source : Expr}
    (noForeign : source.foreign? = none)
    (result : Expr)
    (cache : Cache) :
    (cache.insert source.tokens ⟨source, result⟩ true).answer settings
      source.tokens source =
      .ok (some result) := by
  simp [answer, bucket_insert_self, firstEqual, Expr.equal_self noForeign]

/-- An answer lasts.  With tolerant searches nothing more is filed in its
bucket; with exact ones nothing that is equal to its tree is filed in front. -/
theorem answer_lasting
    (settings : Settings)
    {e : Expr}
    (noForeign : e.foreign? = none)
    (result : Expr) :
    Engine.Lasting settings
      (fun cache => cache.answer settings e.tokens e = .ok (some result))
      fun source => source.equal e = .ok false ∧
        (settings.reusesCollisions = true -> source.tokens ≠ e.tokens) where
  misses := by
    intro cache source noForeign' answered missed
    obtain ⟨isEqual, compared⟩ := Expr.exists_equal_eq_ok noForeign' noForeign
    cases isEqual with
    | true =>
      rw [answer_congr settings compared, answered] at missed
      cases missed
    | false =>
      refine ⟨compared, fun tolerant same => ?_⟩
      obtain ⟨_, -, nothing⟩ := Result.bind_eq_ok.1 missed
      simp only [tolerant, if_true, Result.pure_eq_ok, Except.ok.injEq,
        Option.or_eq_none_iff,
        Option.map_eq_none_iff, List.head?_eq_none_iff, same] at nothing
      rw [answer, nothing.2] at answered
      simp [firstEqual] at answered
  inserts := by
    rintro cache source other atFront - ⟨unequal, apart⟩ answered
    by_cases same : source.tokens = e.tokens
    · have exactly : settings.reusesCollisions = false := by
        simpa using fun tolerant => apart tolerant same
      simp only [answer, exactly, Bool.false_eq_true, if_false, Option.or_none,
        Result.pure_eq_ok, Result.bind_ok] at answered ⊢
      rw [same, bucket_insert_self]
      cases atFront with
      | true =>
        rw [if_pos rfl, firstEqual, unequal, Result.ok_bind,
          if_neg Bool.false_ne_true, answered]
      | false => exact firstEqual_append answered _
    · rw [answer, bucket_insert_of_ne source.tokens e.tokens _ atFront cache
        (Ne.symm same)]
      exact answered

end Cache

namespace Work

/-- A node is not simplified again when a search finds an answer for it. -/
theorem outcome_simplifyNode_of_answer
    {settings : Settings}
    (recursion : Recursion)
    {source result : Expr}
    (noForeign : source.foreign? = none)
    {memory : Memory}
    (answered : memory.cache.answer settings source.tokens source =
      .ok (some result)) :
    ((simplifyNode settings recursion source).outcome memory).1 =
      .ok result := by
  obtain ⟨found, -⟩ := outcome_retrieve settings source.tokens source memory
  rw [answered] at found
  unfold simplifyNode
  rw [Expr.fingerprint_eq_ok source noForeign, outcome_bind, outcome_lift]
  dsimp only
  rw [outcome_bind]
  generalize (retrieve settings source.tokens source).outcome memory =
    reached at found
  obtain ⟨_, after⟩ := reached
  cases found
  rfl

/-- After a node was simplified a search finds the result. -/
theorem answer_of_simplifyNode
    {settings : Settings}
    {recursion : Recursion}
    {source result : Expr}
    {memory : Memory}
    (returned : ((simplifyNode settings recursion source).outcome memory).1 =
      .ok result) :
    source.foreign? = none ∧
      ((simplifyNode settings recursion source).outcome memory).2.cache.answer
        settings source.tokens source = .ok (some result) := by
  unfold simplifyNode at returned ⊢
  rw [outcome_bind, outcome_lift] at returned ⊢
  cases hashed : source.fingerprint with
  | error failure =>
    rw [hashed] at returned
    cases returned
  | ok key =>
    rw [hashed] at returned
    have noForeign := Expr.foreign?_of_fingerprint hashed
    obtain rfl := Expr.eq_tokens_of_fingerprint hashed
    refine ⟨noForeign, ?_⟩
    dsimp only at returned ⊢
    obtain ⟨answered, unchanged⟩ :=
      outcome_retrieve settings source.tokens source memory
    rw [outcome_bind] at returned ⊢
    generalize (retrieve settings source.tokens source).outcome memory = reached
      at answered unchanged returned ⊢
    obtain ⟨found, after⟩ := reached
    cases found with
    | error failure => cases returned
    | ok found =>
      cases found with
      | some remembered =>
        cases returned
        exact unchanged ▸ answered.symm
      | none =>
        dsimp only at returned ⊢
        rw [outcome_bind] at returned ⊢
        generalize (iterate settings recursion source settings.limits.iterations
          source).outcome after = reached at returned ⊢
        obtain ⟨result', after⟩ := reached
        cases result' with
        | error failure => cases returned
        | ok result' =>
          cases returned
          exact Cache.answer_insert_self settings noForeign result after.cache

end Work

namespace Context

/-- In a context that any calls have been made in, whether they returned or
failed, a further call leaves the depth alone, every entry is filed under the
fingerprint of its source, all earlier entries are still there and in their
order within their buckets, and an exact search finds a result exactly when some
entry of the memory has an equal source. -/
theorem memory_after_call
    (settings : Settings)
    (depth : Nat)
    (calls : List Call)
    (call : Call) :
    let context := (mk settings depth []).afterAll calls
    let later := context.after call
    later.depth = context.depth ∧
    (∀ key entries, (key, entries) ∈ later.cache ->
      ∀ entry ∈ entries, entry.source.fingerprint = .ok key) ∧
    (∀ key, (context.cache.bucket key).Sublist (later.cache.bucket key)) ∧
    ∀ key e, e.fingerprint = .ok key ->
      ∃ found, (later.run (Work.findEqual key e)).1 = .ok found ∧
        (found.isSome = true ↔
          ∃ other entries, (other, entries) ∈ later.cache ∧
            ∃ entry ∈ entries, entry.source.equal e = .ok true) := by
  intro context later
  have isFiled : context.cache.IsFiled :=
    (afterAll_retains (Cache.filed_lasting settings) rfl Cache.isFiled_nil
      calls).2.2
  have isFiledLater : later.cache.IsFiled :=
    after_retains (Cache.filed_lasting context.settings) rfl isFiled call
  refine ⟨context.after_depth call, isFiledLater.filed, ?_, ?_⟩
  · exact after_retains
      (Cache.sublist_lasting context.settings context.cache) rfl
      (fun _ => List.Sublist.refl _) call
  · exact fun key e hashed => isFiledLater.findEqual hashed

/-- A division by zero fails two levels down in `x/0 + x`.  The depth is
restored, and once `x + x` was simplified it is found, because some entry has it
for its source. -/
theorem memory_after_call_double :
    let x : Expr := .var "x"
    let start := mk .standard 0 []
    let failing : Expr := .node .sum (.node .quotient x (.int 0)) x
    let context := start.afterAll [.simplify failing]
    let later := context.after (.simplify (.node .sum x x))
    (start.run (start.simplify failing)).1.isOk = false ∧
      later.depth = context.depth ∧
      (later.run (Work.findEqual [1, 120, 120] (.node .sum x x))).1 =
        .ok (some (.node .product (.int 2) x)) ∧
      ∃ key entries, (key, entries) ∈ later.cache ∧
        ∃ entry ∈ entries, entry.source.equal (.node .sum x x) = .ok true := by
  intro x start failing context later
  obtain ⟨sameDepth, -, -, finds⟩ :=
    memory_after_call .standard 0 [.simplify failing]
      (.simplify (.node .sum x x))
  obtain ⟨found, searched, isFound⟩ := finds [1, 120, 120] (.node .sum x x) rfl
  have known : (later.run (Work.findEqual [1, 120, 120] (.node .sum x x))).1 =
      .ok (some (.node .product (.int 2) x)) := by
    simp only [later, context, failing, start, x]
    cbv
  have isFailed : (start.run (start.simplify failing)).1.isOk = false := by
    simp only [failing, start, x]
    cbv
  obtain rfl : some (Expr.node .product (.int 2) x) = found :=
    Except.ok.inj (known.symm.trans searched)
  exact ⟨isFailed, sameDepth, known, isFound.1 rfl⟩

/-- Once a node was simplified in a context, the same result is returned for
every node that is equal to it, whatever calls are made in between and whether
they return or fail. -/
theorem simplify_again
    (context : Context)
    {operation operation' : Operation}
    {left left' right right' result : Expr}
    (returned :
      (context.run (context.simplify (.node operation left right))).1 =
      .ok result)
    (calls : List Call)
    (equal : (Expr.node operation left right).equal
      (.node operation' left' right') = .ok true) :
    let later :=
      (context.after (.simplify (.node operation left right))).afterAll calls
    (later.run (later.simplify (.node operation' left' right'))).1 =
      .ok result := by
  intro later
  rw [run_simplify] at returned ⊢
  cases levels : context.levels with
  | zero =>
    rw [levels] at returned
    cases returned
  | succ count =>
    rw [levels] at returned
    obtain ⟨noForeign, answered⟩ := Work.answer_of_simplifyNode returned
    have answers :
        (context.after (.simplify (.node operation left right))).cache.answer
        context.settings (Expr.node operation left right).tokens
          (.node operation left right) =
          .ok (some result) := by
      rw [after, run_simplify, levels]
      exact answered
    obtain ⟨sameSettings, sameDepth, answers⟩ :=
      afterAll_retains (Cache.answer_lasting context.settings noForeign result)
        (context.after_settings _) answers calls
    have sameLevels : later.levels = count + 1 := by
      rw [← levels, Context.levels, sameSettings, sameDepth, after_depth,
        Context.levels]
    rw [Cache.answer_congr _ equal] at answers
    rw [sameLevels, show later.settings = context.settings from sameSettings]
    have noForeign' := Expr.foreign?_of_equal (Expr.equal_symm equal)
    exact Work.outcome_simplifyNode_of_answer _ noForeign' answers

/-- `x + x` becomes `2*x`, and so does `(x) + x` after a division by zero has
failed and the terms `x` and `x` have been collected in the same context. -/
theorem simplify_again_double :
    let x : Expr := .var "x"
    let later :=
      ((ofSettings .standard).after (.simplify (.node .sum x x))).afterAll
      [.simplify (.node .quotient x (.int 0)), .collect .sum [x, x]]
    (later.run (later.simplify (.node .sum (.wrap x) x))).1 =
      .ok (.node .product (.int 2) x) :=
  simplify_again (ofSettings .standard) (by cbv) _
    (by simp [Expr.equal, Expr.unwrap])

end Context
end Symbolic
