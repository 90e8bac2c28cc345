import Symbolic.Proofs.ExactSearch
import Symbolic.Proofs.LargerLimits
import Symbolic.Proofs.Recomputation

/-!
# Faithful memories

A memory is faithful as far as searches for standard trees find nothing but the
answers that these trees are recomputed to.  It need not contain the right
answers only: the trees of passes that are not finished are remembered as well,
but those take more fuel than what is looked for in the meantime.
`Cache.Learns` says how a faithful memory may change.

A run is obstructed if a limit is exceeded or a tolerant search settles for the
result of another tree.  An obstacle stays visible to the end, in the error or
in the events.
-/

namespace Symbolic

/-! ## Events stay noted -/

namespace Work

variable {α β : Type}

/-- The events that were noted before a computation are still there
afterwards. -/
def Grows (work : Work α) : Prop :=
  ∀ memory, memory.events <:+ (work.outcome memory).2.events

namespace Grows

theorem lift (result : Result α) : Grows (liftM result : Work α) :=
  fun _ => List.suffix_rfl

theorem note (event : Event) : Grows (Work.note event) :=
  fun memory => List.suffix_cons event memory.events

theorem remember
    (key : Fingerprint)
    (source result : Expr)
    (atFront : Bool) :
    Grows (Work.remember key source result atFront) :=
  fun _ => List.suffix_rfl

/-- Runs that only add to the memory do so one after the other. -/
theorem bind
    {work : Work α}
    {next : α -> Work β}
    (grows : Grows work)
    (nextGrows : ∀ a, Grows (next a)) :
    Grows (work >>= next) := by
  intro memory
  have first := grows memory
  rw [outcome_bind]
  generalize work.outcome memory = reached at first
  obtain ⟨result, after⟩ := reached
  cases result with
  | ok a => exact first.trans (nextGrows a after)
  | error failure => exact first

/-- An isolated run gives the memory back. -/
theorem isolated {work : Work α} (grows : Grows work) :
    Grows (Work.isolated work) :=
  grows

theorem retrieve
    (settings : Settings)
    (key : Fingerprint)
    (source : Expr) :
    Grows (Work.retrieve settings key source) := by
  refine bind (fun _ => List.suffix_rfl) fun found => ?_
  cases found with
  | some result => exact fun _ => List.suffix_rfl
  | none =>
    refine bind (fun _ => List.suffix_rfl) fun memory => ?_
    cases memory.cache.bucket key with
    | nil => exact fun _ => List.suffix_rfl
    | cons first rest =>
      dsimp only
      split
      · exact bind (note _) fun _ _ => List.suffix_rfl
      · exact fun _ => List.suffix_rfl

end Grows

/-- To let the events grow is a relation that only looks at the second
computation. -/
def growing : Congruence where
  Related := fun _ work => Grows work
  lift := .lift
  note := .note
  bind := .bind

end Work

open Work (Grows)

/-- What is done after a pass: stop, return to an earlier tree, or run further
passes on a copy of the memory. -/
def afterPass
    (settings : Settings)
    (recursion : Recursion)
    (source : Expr)
    (passes : Nat)
    (current : Expr)
    (pass : Pass) : Work Expr := do
  if pass.isChanged then
    let key ← pass.result.fingerprint
    match ← Work.findEqual key pass.result with
    | some previous =>
      Work.note (.returned source previous)
      return previous
    | none =>
      Work.note (.advanced current pass.result)
      Work.isolated do
        Work.remember key pass.result pass.result false
        iterate settings recursion source passes pass.result
  else
    return pass.result

/-- A further pass is run, and then judged. -/
theorem iterate_succ
    (settings : Settings)
    (recursion : Recursion)
    (source : Expr)
    (passes : Nat)
    (current : Expr) :
    iterate settings recursion source (passes + 1) current = (do
      let pass ← Pass.run settings recursion current
      afterPass settings recursion source passes current pass) := rfl

section Grows

variable {settings : Settings} {recursion : Recursion}
  (recursive : ∀ e, Grows (recursion e))

include recursive

/-- One pass only adds to the memory. -/
theorem Pass.run_grows (e : Expr) : Grows (Pass.run settings recursion e) := by
  have related : Work.growing.Related (Pass.run settings recursion e)
      (Pass.run settings recursion e) :=
    Pass.run_related Work.growing rfl recursive fun result =>
      .remember _ _ result false
  exact related

omit recursive in
theorem afterPass_grows
    {passes : Nat}
    (later : ∀ source current,
      Grows (iterate settings recursion source passes current))
    (source current : Expr)
    (pass : Pass) :
    Grows (afterPass settings recursion source passes current pass) := by
  unfold afterPass
  split
  · refine .bind (.lift _) fun key => .bind (fun _ => List.suffix_rfl)
      fun found => ?_
    cases found with
    | some previous => exact .bind (.note _) fun _ => .lift (.ok _)
    | none =>
      refine .bind (.note _) fun _ =>
        .isolated (.bind (.remember _ _ _ _) fun _ => ?_)
      exact later source pass.result
  · exact .lift (.ok _)

/-- So do the passes together, by induction on their number. -/
theorem iterate_grows
    (source : Expr)
    (passes : Nat)
    (current : Expr) :
    Grows (iterate settings recursion source passes current) := by
  induction passes generalizing source current with
  | zero => exact .lift (.error _)
  | succ passes inductive_step =>
    rw [iterate_succ]
    refine .bind (Pass.run_grows recursive current) fun pass => ?_
    exact afterPass_grows inductive_step source current pass

theorem simplifyNode_grows (source : Expr) :
    Grows (simplifyNode settings recursion source) := by
  unfold simplifyNode
  refine .bind (.lift _) fun key => .bind (.retrieve settings key source)
    fun found => ?_
  cases found with
  | some remembered => exact .bind (.note _) fun _ => .lift (.ok _)
  | none =>
    refine .bind (iterate_grows recursive _ _ _) fun result => ?_
    exact .bind (.remember _ _ _ _) fun _ => .lift (.ok _)

omit recursive in
/-- The engine only adds to the memory, by induction on the levels left. -/
theorem simplifyAt_grows (levels : Nat) (e : Expr) :
    Grows (simplifyAt settings levels e) := by
  induction levels generalizing e with
  | zero => exact .lift (.error _)
  | succ levels inductive_step =>
    cases e with
    | wrap inner => exact inductive_step inner
    | node operation left right => exact simplifyNode_grows inductive_step _
    | foreign object => exact .lift (.error _)
    | _ => exact .lift (.ok _)

end Grows

/-! ## Obstructed runs -/

/-- A limit was exceeded, or a tolerant search settled for the result of another
tree. -/
def Obstructed {α : Type} (settings : Settings) (reached : Result α × Memory) :
    Prop :=
  (∃ failure : Error, reached.1 = .error failure ∧ failure.IsDivergence) ∨
    settings.reusesCollisions = true ∧
      ∃ tree reused, Event.collision tree reused ∈ reached.2.events

/-- An obstacle on the way is one of the whole run. -/
theorem Obstructed.bind
    {α β : Type}
    {settings : Settings}
    {work : Work α}
    {next : α -> Work β}
    {memory : Memory}
    (obstructed : Obstructed settings (work.outcome memory))
    (nextGrows : ∀ a, Grows (next a)) :
    Obstructed settings ((work >>= next).outcome memory) := by
  rw [Work.outcome_bind]
  generalize work.outcome memory = reached at obstructed
  obtain ⟨result, after⟩ := reached
  rcases obstructed with
    ⟨failure, rfl, isDivergence⟩ | ⟨tolerant, tree, reused, noted⟩
  · exact .inl ⟨failure, rfl, isDivergence⟩
  · refine .inr ⟨tolerant, tree, reused, ?_⟩
    cases result with
    | ok a => exact (nextGrows a after).subset noted
    | error failure => exact noted

/-- What obstructs a run obstructs it in isolation. -/
theorem Obstructed.isolated
    {α : Type}
    {settings : Settings}
    {work : Work α}
    {memory : Memory}
    (obstructed : Obstructed settings (work.outcome memory)) :
    Obstructed settings ((Work.isolated work).outcome memory) :=
  obstructed

/-! ## Faithful memories -/

namespace Cache

/-- What an exact search for a tree finds. -/
def search (cache : Cache) (e : Expr) : Result (Option Expr) :=
  firstEqual (cache.bucket e.tokens) e

/-- An entry for another tree at the end of a bucket is never found. -/
theorem firstEqual_append_of_unequal
    {entry : Remembered}
    {e : Expr}
    (unequal : entry.source.equal e = .ok false)
    (entries : List Remembered) :
    firstEqual (entries ++ [entry]) e = firstEqual entries e := by
  induction entries with
  | nil => simp [firstEqual, unequal]
  | cons first rest inductive_step =>
    rw [List.cons_append, firstEqual, firstEqual, inductive_step]

/-- Remembering a tree does not disturb the searches for other trees. -/
theorem search_insert_of_unequal
    {source e : Expr}
    (unequal : source.equal e = .ok false)
    (key : Fingerprint)
    (result : Expr)
    (atFront : Bool)
    (cache : Cache) :
    (cache.insert key ⟨source, result⟩ atFront).search e = cache.search e := by
  unfold search
  by_cases same : e.tokens = key
  · rw [same, bucket_insert_self]
    cases atFront with
    | true => simp [firstEqual, unequal]
    | false => exact firstEqual_append_of_unequal unequal _
  · rw [bucket_insert_of_ne key e.tokens _ atFront cache same]

/-- An entry at the front of its bucket is the one that is found. -/
theorem search_insert_self
    {e : Expr}
    (noForeign : e.foreign? = none)
    (result : Expr)
    (cache : Cache) :
    (cache.insert e.tokens ⟨e, result⟩ true).search e = .ok (some result) := by
  simp [search, bucket_insert_self, firstEqual, Expr.equal_self noForeign]

/-- What is found for a standard tree that can be recomputed with the given fuel
is its answer. -/
def IsFaithful (settings : Settings) (fuel : Nat) (cache : Cache) : Prop :=
  ∀ e r, e.IsStandard -> recompute settings fuel e = .ok r ->
    cache.search e = .ok none ∨ cache.search e = .ok (some r)

/-- Apart from searches for exempt trees, a search finds afterwards what it
found before, or now finds the answer. -/
def Learns
    (settings : Settings)
    (fuel : Nat)
    (exempt : Expr -> Prop)
    (before after : Cache) : Prop :=
  ∀ e, e.IsStandard -> ¬ exempt e -> after.search e = before.search e ∨
    ∃ r, recompute settings fuel e = .ok r ∧ after.search e = .ok (some r)

/-- An empty memory is faithful. -/
theorem isFaithful_nil (settings : Settings) (fuel : Nat) :
    IsFaithful settings fuel [] :=
  fun _ _ _ _ => .inl rfl

/-- A memory that is faithful for some fuel is so for less. -/
theorem IsFaithful.mono
    {settings : Settings}
    {fuel fuel' : Nat}
    {cache : Cache}
    (faithful : cache.IsFaithful settings fuel')
    (fewer : fuel ≤ fuel') :
    cache.IsFaithful settings fuel :=
  fun e r standard recomputed =>
    faithful e r standard (recompute_mono fewer recomputed)

namespace Learns

variable {settings : Settings} {fuel : Nat} {exempt : Expr -> Prop}
  {before between after : Cache}

theorem refl (cache : Cache) : Learns settings fuel exempt cache cache :=
  fun _ _ _ => .inl rfl

/-- What is learned in two steps is learned. -/
theorem trans
    (learns : Learns settings fuel exempt before between)
    (learns' : Learns settings fuel exempt between after) :
    Learns settings fuel exempt before after := by
  intro e standard notExempt
  rcases learns' e standard notExempt with same | answered
  · rw [same]
    exact learns e standard notExempt
  · exact .inr answered

theorem mono
    {fuel' : Nat}
    {exempt' : Expr -> Prop}
    (learns : Learns settings fuel exempt before after)
    (more : fuel ≤ fuel')
    (weaker : ∀ e, exempt e -> exempt' e) :
    Learns settings fuel' exempt' before after := by
  intro e standard notExempt
  refine (learns e standard fun isExempt =>
    notExempt (weaker e isExempt)).imp_right ?_
  rintro ⟨r, recomputed, found⟩
  exact ⟨r, recompute_mono more recomputed, found⟩

/-- A memory that learns stays faithful, since all exempt trees take more
fuel. -/
theorem isFaithful
    (learns : Learns settings fuel exempt before after)
    (takeMore : ∀ e, exempt e -> TakesMore settings fuel e)
    (faithful : before.IsFaithful settings fuel) :
    after.IsFaithful settings fuel := by
  intro e r standard recomputed
  rcases learns e standard fun isExempt => takeMore e isExempt r recomputed with
    same | answered
  · rw [same]
    exact faithful e r standard recomputed
  · obtain ⟨r', recomputed', found⟩ := answered
    obtain rfl := recompute_unique recomputed recomputed'
    exact .inr found

/-- Whatever is remembered of a tree is only found by searches for that tree. -/
theorem insert
    {source : Expr}
    (standard : source.IsStandard)
    (key : Fingerprint)
    (result : Expr)
    (atFront : Bool) :
    Learns settings fuel (· = source) before
      (before.insert key ⟨source, result⟩ atFront) := by
  intro e standard' different
  refine .inl (search_insert_of_unequal ?_ key result atFront before)
  exact standard.equal_eq_false standard' (Ne.symm different)

/-- With the answer in front of its bucket the source is no longer exempt. -/
theorem settle
    {source r : Expr}
    (standard : source.IsStandard)
    (recomputed : recompute settings fuel source = .ok r)
    (learns : Learns settings fuel (· = source) before after) :
    Learns settings fuel (fun _ => False) before
      (after.insert source.tokens ⟨source, r⟩ true) := by
  intro e standard' _
  by_cases same : e = source
  · subst same
    exact .inr ⟨r, recomputed,
      search_insert_self standard.foreign?_eq_none r after⟩
  · rw [search_insert_of_unequal
      (standard.equal_eq_false standard' (Ne.symm same))]
    exact learns e standard' same

end Learns
end Cache

end Symbolic
