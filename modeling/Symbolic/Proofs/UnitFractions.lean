import Symbolic.Proofs.ExactSearch
import Symbolic.Proofs.ResolvedTrees

/-!
# Differences and quotients do not survive

Without tolerant searches, a simplified tree has no difference, and only unit
fractions are left of its quotients.

On the way there are trees of another kind.  A chain of which one term is left
is reduced to this term as it is, so the first pass over `x/y + z - z` leads to
`x/y`, and this tree is remembered, as a result of the whole and as its own.  So
the memory cannot be judged by its single entries.  What holds is that an exact
search for a settled tree already finds a clean one: the others are found by
searches for trees that are equal to the one being simplified, or to what its
first pass led to, only.  When that simplification returns, its result stands in
front of the bucket, where these searches find it first.
-/

namespace Symbolic

/-- Exact searches find clean trees, apart from those for exempt trees. -/
abbrev Cache.IsClearExcept : (Expr -> Prop) -> Cache -> Prop :=
  ServesExcept Expr.IsClean

/-- Exact searches find clean trees. -/
abbrev Cache.IsClear : Cache -> Prop :=
  Serves Expr.IsClean

/-- Simplification of any tree over the operations of arithmetic in a clear
memory: the result is clean, and the memory is clear again. -/
def Recursion.Clears (recursion : Recursion) : Prop :=
  ∀ e : Expr, e.Over Operation.arithmetic ->
    (recursion e).Reaches Cache.IsClear (CleanResult Expr.IsClean e)
      Cache.IsClear

/-- Simplification of settled trees in a memory that need not be clear for other
trees: the result is clean, and the memory stays as clear as it is. -/
def Recursion.KeepsClear (recursion : Recursion) : Prop :=
  ∀ exempt : Expr -> Prop, (∀ e, exempt e -> ¬ e.IsSettled) ->
    Engine.RecursiveIn (Cache.IsClearExcept exempt) Expr.IsSettled
      (CleanResult Expr.IsClean) recursion

/-! ## Settled trees -/

section Engine

variable {settings : Settings} (standard : settings.registry = .standard)
  (exact : settings.reusesCollisions = false)

include standard exact

/-- The simplification of settled trees gives clean trees as long as no settled
tree is exempt. -/
theorem Expr.IsSettled.law
    {exempt : Expr -> Prop}
    (unsettled : ∀ e, exempt e -> ¬ e.IsSettled) :
    Engine.Law settings (Cache.IsClearExcept exempt) Expr.IsSettled
      (fun e => ∀ operation left right, e = .node operation left right ->
        operation ∈ Operation.arithmetic ∧ left.IsSettled ∧ right.IsSettled)
      (CleanResult Expr.IsClean) := by
  refine treeClass.law standard ?_ ?_ ?_
  · intro key e settled hashed
    refine Work.Keeps.mono (Work.Keeps.findEqual_serves hashed)
      fun found clean result isFound => ?_
    exact (clean result isFound).resolve_left fun isExempt =>
      unsettled e isExempt settled
  · intro key e settled hashed
    refine Work.Keeps.mono (Work.Keeps.retrieve_serves exact hashed)
      fun found clean result isFound => ?_
    exact (clean result isFound).resolve_left fun isExempt =>
      unsettled e isExempt settled
  · intro key source result atFront isClean
    exact Work.Keeps.remember_serves key (fun _ _ => .inr isClean) atFront

end Engine

/-! ## The first pass over a tree that is not settled -/

theorem Expr.not_isSettled_of_equal
    {a b : Expr}
    (isOver : a.Over Operation.arithmetic)
    (unsettled : ¬ a.IsSettled)
    (equal : a.equal b = .ok true) :
    ¬ b.IsSettled := by
  intro settled
  refine unsettled ⟨isOver, ?_⟩
  rw [isResolved_stripped_of_equal equal, settled.resolved]

/-- A tree may be remembered as its own result.  If it is not settled, then it
is exempt from now on. -/
theorem Work.Reaches.remember_itself
    {exempt : Expr -> Prop}
    (unsettled : ∀ e, exempt e -> ¬ e.IsSettled)
    (key : Fingerprint)
    {source : Expr}
    (sourceOver : source.Over Operation.arithmetic)
    (clean : source.IsSettled -> source.IsClean) :
    ∃ exempt', (∀ e, exempt' e -> ¬ e.IsSettled) ∧
      (Work.remember key source source false).Reaches
        (Cache.IsClearExcept exempt)
        (fun _ => True) (Cache.IsClearExcept exempt') := by
  by_cases settled : source.IsSettled
  · exact ⟨exempt, unsettled, .remember_serves (fun _ => id) key
      (fun _ _ => .inr (clean settled)) false⟩
  · refine ⟨fun e => exempt e ∨ source.equal e = .ok true, ?_,
      .remember_serves (fun _ => .inl) key
        (fun _ equal => .inl (.inr equal)) false⟩
    rintro e (before | equal)
    · exact unsettled e before
    · exact Expr.not_isSettled_of_equal sourceOver settled equal

/-- Where a pass over a tree with the given fingerprint leads: to a clean tree,
or to clean operands under an operation of a certain kind.  It is followed by
another one if the fingerprint has changed, and only a clean result may end it
otherwise. -/
structure Pass.IsCandidate (key : Fingerprint) (kind : Operation -> Prop)
    (pass : Pass) : Prop where
  shape : pass.result.IsClean ∨ ∃ operation left right,
    pass.result = .node operation left right ∧
    kind operation ∧ operation ∈ Operation.arithmetic ∧ left.IsClean ∧
      right.IsClean
  goesOn : pass.isChanged = true ->
    pass.result.isCompound = true ∧
      Fingerprint.distance pass.result.tokens key ≠ 0
  ends : pass.isChanged = false ->
    pass.result.IsClean ∨ Fingerprint.distance pass.result.tokens key = 0

namespace Pass.IsCandidate

variable {key : Fingerprint} {kind : Operation -> Prop} {pass : Pass}

theorem mono
    {kind' : Operation -> Prop}
    (candidate : pass.IsCandidate key kind)
    (weaker : ∀ operation, kind operation -> operation ∈ Operation.arithmetic ->
      kind' operation) :
    pass.IsCandidate key kind' where
  shape := by
    refine candidate.shape.imp_right ?_
    rintro ⟨operation, left, right, isNode, ofKind, arithmetic, operandsClean⟩
    exact ⟨operation, left, right, isNode, weaker operation ofKind arithmetic,
      arithmetic, operandsClean⟩
  goesOn := candidate.goesOn
  ends := candidate.ends

theorem final
    {e : Expr}
    (isClean : e.IsClean) :
    (Pass.final e).IsCandidate key kind where
  shape := .inl isClean
  goesOn := by simp [Pass.final]
  ends := fun _ => .inl isClean

/-- A pass that does not change the fingerprint of a node has come to a clean
tree if it cannot lead to another node of the same operation. -/
theorem isClean_of_not_isChanged
    {operation : Operation}
    (arithmetic : operation ∈ Operation.arithmetic)
    {left right : Expr}
    (candidate :
      pass.IsCandidate (Expr.node operation left right).tokens (· ≠ operation))
    (unchanged : pass.isChanged = false) :
    pass.result.IsClean := by
  refine (candidate.ends unchanged).elim id fun same => ?_
  refine candidate.shape.resolve_right ?_
  rintro ⟨other, left', right', isNode, different, otherArithmetic, -⟩
  rw [isNode, Expr.tokens_node, Expr.tokens_node,
    Fingerprint.distance_cons] at same
  exact different (Operation.eq_of_id_eq otherArithmetic arithmetic (by omega))

/-- Another pass may be made over what a pass leads to. -/
theorem runnable
    (candidate : pass.IsCandidate key kind)
    (operation : Operation)
    (left right : Expr)
    (isNode : pass.result = .node operation left right) :
    operation ∈ Operation.arithmetic ∧ left.IsSettled ∧ right.IsSettled := by
  rcases candidate.shape with
    isClean | ⟨_, _, _, isNode', -, arithmetic, leftClean, rightClean⟩
  · rw [isNode] at isClean
    obtain ⟨arithmetic, -, operandsSettled⟩ :=
      Expr.IsSettled.node_iff.1 isClean.toIsSettled
    exact ⟨arithmetic, operandsSettled⟩
  · rw [isNode] at isNode'
    cases isNode'
    exact ⟨arithmetic, leftClean.toIsSettled, rightClean.toIsSettled⟩

/-- What a pass leads to is clean if it is settled. -/
theorem isClean_of_isSettled
    (candidate : pass.IsCandidate key kind)
    (settled : pass.result.IsSettled) :
    pass.result.IsClean := by
  refine ⟨settled, ?_⟩
  rcases candidate.shape with
    isClean | ⟨_, _, _, isNode, -, -, leftClean, rightClean⟩
  · exact isClean.noWrapper
  · simp [isNode, Expr.hasWrapper, leftClean.noWrapper, rightClean.noWrapper]

end Pass.IsCandidate

/-- A rule and the second simplification of operands after it: the tree is
clean, or the operation is an inverse that must go and still stands over clean
operands. -/
theorem Pass.ruled_keeps
    {recursion : Recursion}
    (keepsClear : recursion.KeepsClear)
    {exempt : Expr -> Prop}
    (unsettled : ∀ e, exempt e -> ¬ e.IsSettled)
    {operation : Operation}
    (arithmetic : operation ∈ Operation.arithmetic)
    {left right left' right' ruled : Expr}
    (leftResult : CleanResult Expr.IsClean left left')
    (rightResult : CleanResult Expr.IsClean right right')
    (applied : Rules.apply .standard operation left' right' = .ok ruled) :
    (Pass.refine recursion ruled).Keeps (Cache.IsClearExcept exempt)
      fun result =>
      result.IsClean ∨ operation.stays left.stripped = false ∧ ∃ left'' right'',
        result = .node operation left'' right'' ∧ left''.IsClean ∧
          right''.IsClean := by
  have recursive := keepsClear exempt unsettled
  cases stays : operation.stays left.stripped with
  | true =>
    have grouped : (Expr.node operation left' right').IsClean :=
      .node arithmetic (Expr.IsSettled.stays_result stays leftResult.2)
        leftResult.1 rightResult.1
    obtain ⟨ruledSettled, isNode⟩ :=
      Expr.IsSettled.treeClass.ruled grouped.toIsSettled leftResult.1
        rightResult.1 applied
    exact Work.Keeps.mono
      (Expr.IsSettled.treeClass.refine_keeps recursive ruledSettled isNode)
      fun _ => .inl
  | false =>
    have isGrouped : ruled = .node operation left' right' := by
      rcases Operation.eq_of_stays_eq_false arithmetic stays with rfl | rfl
      · cases applied
        rfl
      · cases applied
        rfl
    rw [isGrouped]
    refine Work.Keeps.bind (recursive left' leftResult.1.toIsSettled)
      fun left'' again => ?_
    refine Work.Keeps.bind (recursive right' rightResult.1.toIsSettled)
      fun right'' again' => ?_
    exact Work.Keeps.pure (.inr ⟨rfl, left'', right'', rfl, again.1, again'.1⟩)

section FirstPass

variable {settings : Settings} (standard : settings.registry = .standard)
  {recursion : Recursion} (clears : recursion.Clears)
  (keepsClear : recursion.KeepsClear)
  {source : Expr} (sourceOver : source.Over Operation.arithmetic)
  (unsettled : ¬ source.IsSettled)

include standard clears

/-- Reducing a chain of a tree over the operations of arithmetic does not lead
to the inverse of the chain unless the result is clean. -/
theorem Pass.reduceChain_reaches
    {focus promoted : Operation}
    {inverse : Inverse}
    {unit : Int}
    (chain : StandardChain focus promoted inverse unit)
    {source : Expr}
    (sourceOver : source.Over Operation.arithmetic) :
    (Pass.reduceChain settings recursion focus source).Reaches Cache.IsClear
      (fun reduced => reduced.Over Operation.arithmetic ∧
        ∀ operation left right, reduced = .node operation left right ->
          operation = inverse.operation -> reduced.IsClean) Cache.IsClear := by
  have closed := ChainClass.over_arithmetic
  refine .of_agrees (reduceChain_agrees rfl
    (fun e => Work.agrees_restoring (recursion e)) focus
    source) (Work.Keeps.reaches ?_)
  refine Work.Keeps.mono (closed.reduceChain_keeps chain
    (fun e => ∀ operation left right, e = .node operation left right ->
      operation = inverse.operation -> e.IsClean) (by rintro _ _ _ _ ⟨⟩) ?_
        standard ?_ ?_) ?_
  · rintro operation left right either _ _ _ ⟨⟩ isInverse
    have sameId := congrArg Operation.id isInverse
    cases chain <;> rcases either with rfl | rfl <;>
      exact absurd sameId (by decide)
  · intro e isOver
    refine Work.Keeps.mono (clears e isOver).restoring
      fun result cleanResult => ?_
    exact ⟨cleanResult.1.isOver, fun _ _ _ _ _ => cleanResult.1⟩
  · intro terms opened term member
    obtain ⟨termOver, isTerm⟩ :=
      closed.forall_terms sourceOver terms opened term member
    refine ⟨termOver, ?_⟩
    rintro operation left right rfl rfl
    exact absurd rfl ((isTerm _ left right rfl).2 inverse rfl)
  · rintro reduced (⟨reducedOver, rooted⟩ | ⟨rfl, -⟩)
    · exact ⟨reducedOver, rooted⟩
    · exact ⟨trivial, by rintro _ _ _ ⟨⟩⟩

include keepsClear sourceOver unsettled

/-- The end of a first pass.  The tree that it started from is remembered on the
way, with a result that need not be clean. -/
theorem Pass.finish_reaches
    (key : Fingerprint)
    {operation : Operation}
    {left right : Expr}
    (arithmetic : operation ∈ Operation.arithmetic)
    (leftOver : left.Over Operation.arithmetic)
    (rightOver : right.Over Operation.arithmetic) :
    (Pass.finish settings recursion key source operation left right).Reaches
      Cache.IsClear
      (Pass.IsCandidate key fun other => other = operation ∧
        operation.stays left.stripped = false)
      (Cache.IsClearExcept (source.equal · = .ok true)) := by
  unfold Pass.finish
  rw [standard]
  refine .bind (clears left leftOver) fun left' leftResult => ?_
  refine .bind (clears right rightOver) fun right' rightResult => ?_
  split
  · refine .bind (Work.Keeps.lift fun _ evaluated => evaluated).reaches
      fun value evaluated => ?_
    refine .pure (.final ?_) fun cache serves => serves.mono fun _ => False.elim
    exact Expr.IsSettled.treeClass.clean_of_isConst
      (Operation.isConst_of_evaluate evaluated)
  · refine .bind (.remember_serves (fun _ => False.elim) key
      (fun _ => .inl) false) fun _ _ => ?_
    refine Work.Keeps.reaches ?_
    refine Work.Keeps.bind (Work.Keeps.lift fun _ applied => applied)
      fun ruled applied => ?_
    refine Work.Keeps.bind (Pass.ruled_keeps keepsClear
      (fun e => Expr.not_isSettled_of_equal sourceOver unsettled) arithmetic
        leftResult rightResult
      applied) fun result shape => ?_
    have shape' : result.IsClean ∨ ∃ other left' right',
        result = .node other left' right' ∧
        (other = operation ∧ operation.stays left.stripped = false) ∧
          other ∈ Operation.arithmetic ∧ left'.IsClean ∧ right'.IsClean := by
      refine shape.imp_right ?_
      rintro ⟨leaves, left'', right'', isNode, operandsClean⟩
      exact ⟨operation, left'', right'', isNode, ⟨rfl, leaves⟩, arithmetic,
        operandsClean⟩
    split
    · next isCompound =>
      refine Work.Keeps.bind (Work.Keeps.lift fun _ hashed => hashed)
        fun resultKey hashed => ?_
      obtain rfl := Expr.eq_tokens_of_fingerprint hashed
      refine Work.Keeps.pure ⟨shape', fun isChanged => ⟨isCompound, ?_⟩,
        fun unchanged => .inr ?_⟩
      · simpa using isChanged
      · simpa using unchanged
    · next notCompound =>
      refine Work.Keeps.pure (.final (shape.resolve_right ?_))
      rintro ⟨-, left'', right'', rfl, -⟩
      exact notCompound rfl

/-- A first pass goes on with the outcome of a reduction. -/
theorem Pass.afterReduction_reaches
    (key : Fingerprint)
    {reduced : Expr}
    (reducedOver : reduced.Over Operation.arithmetic) :
    (Pass.afterReduction settings recursion key source reduced).Reaches
      Cache.IsClear
      (Pass.IsCandidate key fun other => ∃ left right,
        reduced = .node other left right ∧
        other.stays left.stripped = false)
      (Cache.IsClearExcept (source.equal · = .ok true)) := by
  have recursive (e : Expr) (isOver : e.Over Operation.arithmetic)
      (kind : Operation -> Prop) :
      (Pass.final <$> recursion e).Reaches Cache.IsClear
        (Pass.IsCandidate key kind)
        (Cache.IsClearExcept (source.equal · = .ok true)) :=
    .map (.mono (clears e isOver)
      (fun result cleanResult => .final cleanResult.1)
      fun cache serves => serves.mono fun _ => False.elim)
  unfold Pass.afterReduction
  split
  · next operation left right =>
    refine .mono (Pass.finish_reaches standard clears keepsClear sourceOver
      unsettled key
      reducedOver.1 reducedOver.2.1 reducedOver.2.2) ?_ fun _ => id
    intro pass candidate
    refine candidate.mono ?_
    rintro _ ⟨rfl, leaves⟩ -
    exact ⟨left, right, rfl, leaves⟩
  · next inner => exact recursive inner reducedOver _
  · exact recursive reduced reducedOver _

end FirstPass

section FirstPass

variable {settings : Settings} (standard : settings.registry = .standard)
  (exact : settings.reusesCollisions = false)
  {recursion : Recursion} (clears : recursion.Clears)
  (keepsClear : recursion.KeepsClear)
  {operation : Operation} {left right : Expr}
  (nodeOver : (Expr.node operation left right).Over Operation.arithmetic)
  (unsettled : ¬ (Expr.node operation left right).IsSettled)

include standard keepsClear

include exact in
/-- The passes that follow on a first one come to a clean tree. -/
theorem laterPasses_reaches
    {exempt : Expr -> Prop}
    (exemptUnsettled : ∀ e, exempt e -> ¬ e.IsSettled)
    (source : Expr)
    (passes : Nat)
    {pass : Pass}
    {first : Fingerprint}
    {kind : Operation -> Prop}
    (candidate : pass.IsCandidate first kind)
    (isCompound : pass.result.isCompound = true)
    (key : Fingerprint) :
    (do
      Work.remember key pass.result pass.result false
      iterate settings recursion source passes pass.result).Reaches
        (Cache.IsClearExcept exempt) Expr.IsClean fun _ => True := by
  have runnable := candidate.runnable
  have clean := candidate.isClean_of_isSettled
  have isNode : pass.result.IsNode := by
    rcases candidate.shape with isClean | ⟨operation, left, right, isNode, -⟩
    · exact Expr.IsSettled.treeClass.exists_node isClean isCompound
    · exact ⟨operation, left, right, isNode⟩
  obtain ⟨operation, left, right, isNode⟩ := isNode
  rw [isNode] at runnable clean ⊢
  obtain ⟨arithmetic, leftSettled, rightSettled⟩ :=
    runnable operation left right rfl
  have nodeOver : (Expr.node operation left right).Over Operation.arithmetic :=
    ⟨arithmetic, leftSettled.isOver, rightSettled.isOver⟩
  obtain ⟨exempt', exemptUnsettled', remembers⟩ :=
    Work.Reaches.remember_itself exemptUnsettled key nodeOver clean
  refine .bind remembers fun _ _ => ?_
  have law := Expr.IsSettled.law standard exact exemptUnsettled'
  refine .mono (law.iterate_keeps (keepsClear _ exemptUnsettled') source passes
    runnable).reaches ?_ fun _ _ => trivial
  exact fun result cleanResult => cleanResult.1

include clears nodeOver unsettled

/-- The first pass over a tree that is not settled does not lead to a node of
the same operation, unless that is clean. -/
theorem Pass.run_reaches :
    (Pass.run settings recursion (.node operation left right)).Reaches
      Cache.IsClear
      (Pass.IsCandidate (Expr.node operation left right).tokens (· ≠ operation))
      (Cache.IsClearExcept ((Expr.node operation left right).equal · =
        .ok true)) := by
  have ⟨arithmetic, leftOver, rightOver⟩ := nodeOver
  rw [Pass.run_node]
  refine .bind (Work.Keeps.lift fun _ hashed => hashed).reaches
    fun key hashed => ?_
  obtain rfl := Expr.eq_tokens_of_fingerprint hashed
  refine .bind (Work.Keeps.lift fun _ goesThrough => goesThrough).reaches
    fun isChain goesThrough => ?_
  rw [standard] at goesThrough ⊢
  rcases Pass.goesThroughChain_cases arithmetic goesThrough with
    ⟨rfl, promoted, inverse, unit, chain, belongs⟩ | ⟨rfl, noChain⟩
  · refine .bind (Pass.reduceChain_reaches standard clears chain nodeOver)
      fun reduced shape => ?_
    obtain ⟨reducedOver, rooted⟩ := shape
    refine .mono (Pass.afterReduction_reaches standard clears keepsClear
      nodeOver unsettled _ reducedOver) ?_ fun _ => id
    intro pass candidate
    refine candidate.mono ?_
    rintro other ⟨left', right', rfl, leaves⟩ -
    rcases belongs with isFocus | rfl
    · rintro rfl
      rw [isFocus, Operation.stays_of_primary chain.focus_primary] at leaves
      cases leaves
    · intro isInverse
      obtain ⟨-, stays, -⟩ :=
        Expr.IsSettled.node_iff.1 (rooted other left' right' rfl
        isInverse).toIsSettled
      rw [stays] at leaves
      cases leaves
  · refine .mono (Pass.finish_reaches standard clears keepsClear nodeOver
      unsettled _ arithmetic leftOver rightOver) ?_ fun _ => id
    intro pass candidate
    refine candidate.mono ?_
    rintro other ⟨rfl, leaves⟩ -
    have stays : other.stays left.stripped = true := by
      rcases noChain with rfl | ⟨rfl, isOne⟩
      · rfl
      · refine Operation.stays_quotient ?_
        cases left <;> first | exact isOne | cases isOne
    rw [stays] at leaves
    cases leaves

include exact

/-- Pass after pass over a tree that is not settled comes to a clean tree.  What
the first pass leads to may be remembered as its own result, but only until the
passes are over. -/
theorem iterate_reaches
    (source : Expr)
    (passes : Nat) :
    (iterate settings recursion source passes
      (.node operation left right)).Reaches Cache.IsClear Expr.IsClean
      (Cache.IsClearExcept ((Expr.node operation left right).equal · =
        .ok true)) := by
  cases passes with
  | zero => exact .throw _ _ _
  | succ passes =>
    rw [iterate]
    refine .bind (Pass.run_reaches standard clears keepsClear nodeOver
      unsettled) fun pass candidate => ?_
    split
    · next isChanged =>
      obtain ⟨isCompound, changed⟩ := candidate.goesOn isChanged
      refine .bind (Work.Keeps.lift fun _ hashed => hashed).reaches
        fun key hashed => ?_
      refine .bind (Work.Keeps.findEqual_serves hashed).reaches
        fun found clean => ?_
      cases found with
      | some previous =>
        refine .bind (Work.Keeps.note _).reaches fun _ _ => .pure ?_ fun _ => id
        refine (clean previous rfl).resolve_left fun equal => changed ?_
        rw [Expr.tokens_of_equal equal, Fingerprint.distance_self]
      | none =>
        refine .bind (Work.Keeps.note _).reaches fun _ _ => .isolated <|
          laterPasses_reaches standard exact keepsClear
            (fun e => Expr.not_isSettled_of_equal nodeOver unsettled) source
              passes candidate
            isCompound key
    · next unchanged =>
      refine .pure ?_ fun _ => id
      exact candidate.isClean_of_not_isChanged nodeOver.1
        (Bool.eq_false_iff.2 unchanged)

/-- A tree that is not settled is recalled or simplified by passes; then its
result stands in front of its bucket. -/
theorem simplifyNode_reaches :
    (simplifyNode settings recursion (.node operation left right)).Reaches
      Cache.IsClear Expr.IsClean Cache.IsClear := by
  unfold simplifyNode
  refine .bind (Work.Keeps.lift fun _ hashed => hashed).reaches
    fun key hashed => ?_
  refine .bind (Work.Keeps.retrieve_serves exact hashed).reaches
    fun found clean => ?_
  cases found with
  | some result =>
    refine .bind (Work.Keeps.note _).reaches fun _ _ => .pure ?_ fun _ => id
    exact (clean result rfl).resolve_left id
  | none =>
    obtain rfl := Expr.eq_tokens_of_fingerprint hashed
    refine .bind (iterate_reaches standard exact clears keepsClear nodeOver
      unsettled _ _) fun result isClean => ?_
    exact .bind (.remember_settles isClean) fun _ _ => .pure isClean fun _ => id

end FirstPass

section Simplification

variable {settings : Settings} (standard : settings.registry = .standard)
  (exact : settings.reusesCollisions = false)

include standard exact

/-- Settled trees are simplified to clean ones at every level. -/
theorem simplifyAt_keepsClear (levels : Nat) :
    Recursion.KeepsClear (simplifyAt settings levels) :=
  fun _ unsettled =>
    (Expr.IsSettled.law standard exact unsettled).simplifyAt_keeps levels

/-- All trees over the operations of arithmetic are simplified to clean ones. -/
theorem simplifyAt_clears (levels : Nat) :
    Recursion.Clears (simplifyAt settings levels) := by
  induction levels with
  | zero =>
    intro e _
    exact .throw _ _ _
  | succ levels inductive_step =>
    intro e isOver
    by_cases settled : e.IsSettled
    · exact (simplifyAt_keepsClear standard exact (levels + 1) _
        (fun _ => False.elim) e settled).reaches
    · cases e with
      | wrap inner => exact inductive_step inner isOver
      | node operation left right =>
        refine .mono (simplifyNode_reaches standard exact inductive_step
          (simplifyAt_keepsClear standard exact levels) isOver settled) ?_
            fun _ => id
        exact fun result isClean => cleanResult_node isClean
      | _ => exact absurd ⟨trivial, rfl⟩ settled

end Simplification

/-- Without tolerant searches, whatever the limits are, no difference is left of
a tree over the operations of arithmetic, and no quotient but unit fractions. -/
theorem simplified_isResolved
    (limits : Limits)
    (tree result : Expr)
    (isOver : tree.Over Operation.arithmetic)
    (returned : simplified ⟨.standard, limits, false⟩ tree = .ok result) :
    result.Over Operation.arithmetic ∧ result.isResolved = true := by
  rw [simplified_eq] at returned
  have clears :
      Recursion.Clears (simplifyAt ⟨.standard, limits, false⟩ limits.depth) :=
    simplifyAt_clears rfl rfl limits.depth
  obtain ⟨⟨isClean, -⟩, -⟩ :=
    clears tree isOver .empty (Cache.servesExcept_nil _ _) result returned
  refine ⟨isClean.isOver, ?_⟩
  rw [← Expr.stripped_eq_self isClean.noWrapper, isClean.resolved]

/-- The first pass over `x/y + z - z` leads to `x/y`, the last one to
`x * 1/y`. -/
theorem simplified_isResolved_cancelled :
    simplified ⟨.standard, .standard, false⟩ (.node .difference
        (.node .sum (.node .quotient (.var "x") (.var "y")) (.var "z"))
          (.var "z")) =
      .ok (.node .product (.var "x") (.node .quotient (.int 1) (.var "y"))) ∧
    (Expr.node .product (.var "x")
      (.node .quotient (.int 1) (.var "y"))).isResolved = true := by
  have returned : simplified ⟨.standard, .standard, false⟩ (.node .difference
        (.node .sum (.node .quotient (.var "x") (.var "y")) (.var "z"))
          (.var "z")) =
      .ok (.node .product (.var "x")
        (.node .quotient (.int 1) (.var "y"))) := by
    cbv
  exact ⟨returned,
    (simplified_isResolved .standard _ _
    (by simp [Expr.Over, Operation.arithmetic]) returned).2⟩

end Symbolic
