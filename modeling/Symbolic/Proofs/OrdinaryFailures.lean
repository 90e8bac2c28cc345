import Symbolic.Proofs.EngineInvariant
import Symbolic.Proofs.ParsedTrees
import Symbolic.Proofs.PlainChains
import Symbolic.Proofs.Registration

/-!
# Simplification fails only in ordinary ways

A pass over a plain tree gives a plain tree or fails in an ordinary way, and so
does the engine, pass after pass and level after level.  The registry has to
support this, and every registry that is built by registrations does if its
identity elements are plain: its promotions lead to registered operations, and
of those only a commutative one has the id of the operation that plays the part
of multiplication.  Parsed trees are plain.
-/

namespace Symbolic

/-! ## Registries -/

namespace Registry

/-- A registered operation that plays a part is the one that the part is taken
by. -/
theorem HasUniqueKeys.isCommutative_of_plays
    {registry : Registry}
    (unique : registry.HasUniqueKeys)
    {operation : Operation}
    (member : operation ∈ registry.operations)
    (plays : operation.plays registry.multiplicative = true) :
    operation.isCommutative = true := by
  obtain ⟨part, isPart, sameId⟩ := (Option.any_eq_true _ _).1 plays
  have partMember : part ∈ registry.operations :=
    List.mem_of_find?_eq_some isPart
  have suits := List.find?_some isPart
  simp only [Bool.and_eq_true, beq_iff_eq] at sameId suits
  rw [(unique.id_eq_iff member partMember).1 sameId]
  exact suits.2

theorem Built.supports
    {registry : Registry}
    (built : registry.Built)
    (plainIdentities : ∀ operation value,
      registry.identity? operation = some value ->
      value.IsPlain) :
    registry.Supports where
  commutes := fun _ _ promotes plays =>
    built.hasUniqueKeys.isCommutative_of_plays
      (built.relatesRegistered.promotions.of_get? promotes).2 plays
  identities := plainIdentities

end Registry

/-! ## One pass -/

section Recursion

variable {settings : Settings} (supported : settings.registry.Supports)
  {recursion : Recursion}
  (recursive : ∀ e, e.IsPlain -> (recursion e).EndsOrdinarily Expr.IsPlain)

namespace Rules

variable {left right : Expr} (leftPlain : left.IsPlain)
  (rightPlain : right.IsPlain)

include leftPlain rightPlain

/-- The rules for sums give a plain tree. -/
theorem sum_endsOrdinarily
    {whole : Expr}
    (wholePlain : whole.IsPlain) :
    (sum whole left right).EndsOrdinarily Expr.IsPlain := by
  rw [sum, rightPlain.askZero, Result.ok_bind, leftPlain.askZero,
    Result.ok_bind]
  split
  · exact leftPlain
  · split
    · exact rightPlain
    · exact wholePlain

/-- So do the rules for products. -/
theorem product_endsOrdinarily
    {whole : Expr}
    (wholePlain : whole.IsPlain) :
    (product whole left right).EndsOrdinarily Expr.IsPlain := by
  rw [product, leftPlain.askZero, rightPlain.askZero, rightPlain.askOne,
    leftPlain.askOne]
  simp only [Result.ok_bind]
  split
  · trivial
  · split
    · trivial
    · split
      · exact leftPlain
      · split
        · exact rightPlain
        · exact wholePlain

theorem negativePower_isPlain
    (registry : Registry)
    (operation : Operation) :
    (negativePower registry operation left right).IsPlain := by
  unfold negativePower
  split
  · split
    · exact ⟨trivial, leftPlain, trivial⟩
    · exact ⟨leftPlain, rightPlain⟩
  · exact ⟨leftPlain, rightPlain⟩

/-- So do the rules for powers. -/
theorem power_endsOrdinarily
    (registry : Registry)
    (operation : Operation) :
    (power registry operation left right).EndsOrdinarily Expr.IsPlain := by
  rw [power, rightPlain.askZero, leftPlain.askZero, leftPlain.askOne,
    rightPlain.askOne]
  simp only [Result.ok_bind]
  split
  · trivial
  · split
    · trivial
    · split
      · trivial
      · split
        · exact leftPlain
        · exact negativePower_isPlain leftPlain rightPlain registry operation

/-- Whichever rules an operation has, they give a plain tree. -/
theorem apply_endsOrdinarily
    (registry : Registry)
    (operation : Operation) :
    (Rules.apply registry operation left right).EndsOrdinarily
      Expr.IsPlain := by
  unfold Rules.apply
  split
  · exact sum_endsOrdinarily leftPlain rightPlain ⟨leftPlain, rightPlain⟩
  · split
    · exact product_endsOrdinarily leftPlain rightPlain ⟨leftPlain, rightPlain⟩
    · split
      · exact power_endsOrdinarily leftPlain rightPlain registry operation
      · exact ⟨leftPlain, rightPlain⟩

end Rules

namespace Pass

include recursive

theorem splitConstants_endsOrdinarily
    {terms : List Expr}
    (allPlain : ∀ term ∈ terms, term.IsPlain) :
    (splitConstants recursion terms).EndsOrdinarily fun split =>
      (∀ term ∈ split.1, term.IsPlain) ∧ ∀ term ∈ split.2, term.IsPlain := by
  induction terms with
  | nil => exact .pure ⟨by simp, by simp⟩
  | cons first rest inductive_step =>
    obtain ⟨firstPlain, restPlain⟩ := List.forall_mem_cons.1 allPlain
    rw [splitConstants]
    split
    · refine .bind (recursive first firstPlain) fun value valuePlain => ?_
      refine .bind (inductive_step restPlain) ?_
      rintro ⟨constants, others⟩ ⟨constantsPlain, othersPlain⟩
      dsimp only
      split
      · exact .pure ⟨List.forall_mem_cons.2 ⟨valuePlain, constantsPlain⟩,
          othersPlain⟩
      · exact .pure ⟨constantsPlain,
          List.forall_mem_cons.2 ⟨valuePlain, othersPlain⟩⟩
    · refine .bind (inductive_step restPlain) ?_
      rintro ⟨constants, others⟩ ⟨constantsPlain, othersPlain⟩
      exact .pure ⟨constantsPlain,
        List.forall_mem_cons.2 ⟨firstPlain, othersPlain⟩⟩

include supported

theorem residue_endsOrdinarily
    (focus : Operation)
    {others : List Expr}
    (allPlain : ∀ term ∈ others, term.IsPlain) :
    (residue settings recursion focus others).EndsOrdinarily fun rest =>
      ∀ e, rest = some e -> e.IsPlain := by
  match others, allPlain with
  | [], _ => exact .pure (by simp)
  | [term], allPlain =>
    refine .bind (recursive term (allPlain term List.mem_cons_self))
      fun simplified simplifiedPlain => .pure ?_
    rintro e ⟨⟩
    exact simplifiedPlain
  | first :: second :: rest, allPlain =>
    refine .bind (collect_endsOrdinarily supported recursive focus (by simp)
      allPlain) fun collected collectedPlain => ?_
    split
    · exact .pure (by simp)
    · next present =>
      refine .bind (.lift
        (focus.joinAll_endsOrdinarily (by simpa using present) collectedPlain))
        fun joined joinedPlain => .pure ?_
      rintro e ⟨⟩
      exact joinedPlain

omit supported recursive in
theorem absorbConstant_isPlain
    {constants : List Expr}
    {rest : Option Expr}
    (constantsPlain : ∀ e ∈ constants, e.IsPlain)
    (restPlain : ∀ e, rest = some e -> e.IsPlain) :
    (∀ e ∈ (absorbConstant constants rest).1, e.IsPlain) ∧
      ∀ e, (absorbConstant constants rest).2 = some e -> e.IsPlain := by
  unfold absorbConstant
  split
  · refine ⟨List.forall_mem_append.2 ⟨constantsPlain, ?_⟩, by simp⟩
    intro e member
    obtain rfl := List.mem_singleton.1 member
    trivial
  · exact ⟨constantsPlain, restPlain⟩

/-- Plain chains are reduced to plain trees. -/
theorem reduceChain_endsOrdinarily
    {focus : Operation}
    (commutative : focus.isCommutative = true)
    {source : Expr}
    (plain : source.IsPlain) :
    (reduceChain settings recursion focus source).EndsOrdinarily
      Expr.IsPlain := by
  unfold reduceChain
  refine .bind (chainTerms_endsOrdinarily settings.registry commutative plain)
    fun terms termsPlain => ?_
  refine .bind (.note _) fun _ _ => ?_
  refine .bind (splitConstants_endsOrdinarily recursive termsPlain) ?_
  rintro ⟨evaluated, others⟩ ⟨evaluatedPlain, othersPlain⟩
  refine .bind (residue_endsOrdinarily supported recursive focus othersPlain)
    fun rest restPlain => ?_
  obtain ⟨constantsPlain, remainderPlain⟩ :=
    absorbConstant_isPlain evaluatedPlain restPlain
  generalize absorbConstant evaluated rest =
    absorbed at constantsPlain remainderPlain
  obtain ⟨constants, remainder⟩ := absorbed
  dsimp only at constantsPlain remainderPlain ⊢
  split
  · refine .pure ?_
    cases remainder with
    | none => trivial
    | some e => exact remainderPlain e rfl
  · next present =>
    refine .bind (.lift
      (focus.joinAll_endsOrdinarily (by simpa using present) constantsPlain))
      fun constant constantPlain => ?_
    cases remainder with
    | none => exact .pure constantPlain
    | some e => exact .pure ⟨constantPlain, remainderPlain e rfl⟩

omit supported in
theorem refine_endsOrdinarily
    {e : Expr}
    (plain : e.IsPlain) :
    (refine recursion e).EndsOrdinarily Expr.IsPlain := by
  unfold Pass.refine
  split
  · exact .bind (recursive _ plain.1) fun left' leftPlain =>
      .bind (recursive _ plain.2) fun right' rightPlain =>
        .pure ⟨leftPlain, rightPlain⟩
  · exact .pure plain

/-- A pass gives a plain tree, and a node if another pass is to follow. -/
def IsPlain (pass : Pass) : Prop :=
  pass.result.IsPlain ∧
    (pass.isChanged = true -> ∃ operation left right,
      pass.result = .node operation left right)

omit supported recursive in
theorem isPlain_final
    {result : Expr}
    (plain : result.IsPlain) :
    (final result).IsPlain :=
  ⟨plain, by simp [final]⟩

omit supported in
/-- A pass over plain operands ends with a plain tree. -/
theorem finish_endsOrdinarily
    (key : Fingerprint)
    {source : Expr}
    (sourcePlain : source.IsPlain)
    (operation : Operation)
    {left right : Expr}
    (leftPlain : left.IsPlain)
    (rightPlain : right.IsPlain) :
    (finish settings recursion key source operation left right).EndsOrdinarily
      IsPlain := by
  unfold finish
  refine .bind (recursive left leftPlain) fun left' leftPlain' => ?_
  refine .bind (recursive right rightPlain) fun right' rightPlain' => ?_
  split
  · next constants =>
    obtain ⟨leftConst, rightConst⟩ := Bool.and_eq_true_iff.1 constants
    exact .bind (.lift (operation.evaluate_endsOrdinarily leftConst rightConst))
      fun value valuePlain => .pure (isPlain_final valuePlain)
  · refine .bind (.remember ⟨sourcePlain, leftPlain', rightPlain'⟩ false)
      fun _ _ => ?_
    refine .bind (.lift
      (Rules.apply_endsOrdinarily leftPlain' rightPlain' settings.registry
      operation)) fun ruled ruledPlain => ?_
    refine .bind (refine_endsOrdinarily recursive ruledPlain)
      fun result resultPlain => ?_
    split
    · next isCompound =>
      have hashes : result.fingerprint.EndsOrdinarily fun _ => True :=
        .of_eq_ok (Expr.fingerprint_eq_ok result resultPlain.foreign?_eq_none)
          trivial
      exact .bind (.lift hashes) fun _ _ =>
        .pure ⟨resultPlain, fun _ => resultPlain.exists_node isCompound⟩
    · exact .pure (isPlain_final resultPlain)

omit supported in
theorem afterReduction_endsOrdinarily
    (key : Fingerprint)
    {source e : Expr}
    (sourcePlain : source.IsPlain)
    (plain : e.IsPlain) :
    (afterReduction settings recursion key source e).EndsOrdinarily
      IsPlain := by
  unfold afterReduction
  split
  · exact finish_endsOrdinarily recursive key sourcePlain _ plain.1 plain.2
  · exact plain.elim
  · exact .map ((recursive e plain).mono fun _ => isPlain_final)

omit recursive supported in
/-- Whether a node is left as it is can be asked of every plain node. -/
theorem goesThroughChain_endsOrdinarily
    (registry : Registry)
    (operation : Operation)
    {left right : Expr}
    (rightPlain : right.IsPlain) :
    (goesThroughChain registry operation left right).EndsOrdinarily
      fun isChain =>
      isChain = true -> (registry.focusOf operation).isCommutative = true := by
  unfold goesThroughChain
  split
  · next commutative =>
    unfold isUnitFraction
    split
    · split
      · exact fun _ => commutative
      · exact fun _ => commutative
      · exact rightPlain.elim
      · exact fun _ => commutative
    · exact fun _ => commutative
  · rintro ⟨⟩

/-- A pass over a plain grouping ends with a plain tree. -/
theorem run_endsOrdinarily
    {operation : Operation}
    {left right : Expr}
    (plain : (Expr.node operation left right).IsPlain) :
    (run settings recursion (.node operation left right)).EndsOrdinarily
      IsPlain := by
  have hashes : (Expr.node operation left right).fingerprint.EndsOrdinarily
      fun _ => True :=
    .of_eq_ok (Expr.fingerprint_eq_ok _ plain.foreign?_eq_none) trivial
  rw [run_node]
  refine .bind (.lift hashes) fun key _ => ?_
  refine .bind (.lift
    (goesThroughChain_endsOrdinarily settings.registry operation plain.2))
    fun isChain commutes => ?_
  split
  · next goesThrough =>
    refine .bind (reduceChain_endsOrdinarily supported recursive
      (commutes goesThrough) plain) fun reduced reducedPlain => ?_
    exact afterReduction_endsOrdinarily recursive key plain reducedPlain
  · exact finish_endsOrdinarily recursive key plain operation plain.1 plain.2

end Pass

/-! ## The engine -/

include supported recursive

/-- Pass after pass, the trees stay plain. -/
theorem iterate_endsOrdinarily
    {source : Expr}
    (sourcePlain : source.IsPlain)
    (passes : Nat)
    {operation : Operation}
    {left right : Expr}
    (plain : (Expr.node operation left right).IsPlain) :
    (iterate settings recursion source passes
      (.node operation left right)).EndsOrdinarily Expr.IsPlain := by
  induction passes generalizing operation left right with
  | zero => exact .throw (.divergence _ _ sourcePlain) _
  | succ passes inductive_step =>
    rw [iterate]
    refine .bind (Pass.run_endsOrdinarily supported recursive plain) ?_
    rintro ⟨candidate, isChanged⟩ ⟨candidatePlain, changed⟩
    split
    · next again =>
      obtain ⟨operation', left', right', rfl⟩ := changed again
      have noForeign := candidatePlain.foreign?_eq_none
      have hashes :
          (Expr.node operation' left' right').fingerprint.EndsOrdinarily
          fun _ => True :=
        .of_eq_ok (Expr.fingerprint_eq_ok _ noForeign) trivial
      refine .bind (.lift hashes) fun key _ => ?_
      have finds :
          (Work.findEqual key (.node operation' left' right')).EndsOrdinarily
          fun found => ∀ result, found = some result -> result.IsPlain := by
        refine .findEqual
          (fun _ entry entryPlain => entryPlain.1.foreign?_eq_none) noForeign
          (.findEqual (by simp) ?_)
        rintro entry entryPlain - result ⟨⟩
        exact entryPlain.2
      refine .bind finds fun found foundPlain => ?_
      cases found with
      | some previous =>
        exact .bind (.note _) fun _ _ => .pure (foundPlain previous rfl)
      | none =>
        refine .bind (.note _) fun _ _ => .isolated ?_
        exact .bind (.remember ⟨candidatePlain, candidatePlain⟩ false)
          fun _ _ =>
          inductive_step candidatePlain
    · exact .pure candidatePlain

/-- A node is recalled or simplified by passes. -/
theorem simplifyNode_endsOrdinarily
    {operation : Operation}
    {left right : Expr}
    (plain : (Expr.node operation left right).IsPlain) :
    (simplifyNode settings recursion
      (.node operation left right)).EndsOrdinarily Expr.IsPlain := by
  have noForeign := plain.foreign?_eq_none
  have hashes : (Expr.node operation left right).fingerprint.EndsOrdinarily
      fun _ => True :=
    .of_eq_ok (Expr.fingerprint_eq_ok _ noForeign) trivial
  unfold simplifyNode
  refine .bind (.lift hashes) fun key _ => ?_
  have retrieves :
      (Work.retrieve settings key (.node operation left right)).EndsOrdinarily
      fun found => ∀ result, found = some result -> result.IsPlain := by
    refine .retrieve
      (fun _ entry entryPlain => entryPlain.1.foreign?_eq_none) noForeign
      (.retrieve (by simp) ?_)
    rintro entry entryPlain - result ⟨⟩
    exact entryPlain.2
  refine .bind retrieves fun found foundPlain => ?_
  cases found with
  | some remembered =>
    exact .bind (.note _) fun _ _ => .pure (foundPlain remembered rfl)
  | none =>
    refine .bind (iterate_endsOrdinarily supported recursive plain _ plain)
      fun result resultPlain => ?_
    exact .bind (.remember ⟨plain, resultPlain⟩ true) fun _ _ =>
      .pure resultPlain

end Recursion

/-- With any number of levels left, the simplification of a plain tree gives a
plain tree or fails in an ordinary way. -/
theorem simplifyAt_endsOrdinarily
    {settings : Settings}
    (supported : settings.registry.Supports)
    (levels : Nat) :
    ∀ e, e.IsPlain ->
      (simplifyAt settings levels e).EndsOrdinarily Expr.IsPlain := by
  induction levels with
  | zero => exact fun e plain => .throw (.divergence _ _ plain) _
  | succ levels inductive_step =>
    intro e plain
    cases e with
    | node operation left right =>
      exact simplifyNode_endsOrdinarily supported inductive_step plain
    | wrap inner => exact plain.elim
    | foreign object => exact plain.elim
    | blank => exact .pure plain
    | const value => exact .pure plain
    | var name => exact .pure plain

/-- In a context that has been used for plain trees only, every simplification
of a plain tree gives a plain tree or fails in an ordinary way. -/
theorem Context.simplify_endsOrdinarily
    {settings : Settings}
    (supported : settings.registry.Supports)
    {context : Context}
    (reached : context.Reached settings Expr.IsPlain)
    {e : Expr}
    (plain : e.IsPlain) :
    (context.run (context.simplify e)).1.EndsOrdinarily Expr.IsPlain := by
  have ends (context : Context) (ofSettings : context.settings = settings)
      {e : Expr} (plain : e.IsPlain) :
      (simplifyAt context.settings context.levels e).EndsOrdinarily
        Expr.IsPlain := by
    subst ofSettings
    exact simplifyAt_endsOrdinarily supported context.levels e plain
  have holds : context.settings = settings ∧
      context.cache.Holds fun _ entry => entry.IsPlain := by
    induction reached with
    | fresh => exact ⟨rfl, Cache.holds_nil _⟩
    | @call context e _ admitted inductive_step =>
      obtain ⟨ofSettings, holds⟩ := inductive_step
      rw [Context.run_simplify]
      exact ⟨ofSettings, ((ends context ofSettings admitted).keeps _ holds).1⟩
  rw [Context.run_simplify]
  exact (ends context holds.1 plain).outcome holds.2

/-- Without a memory, simplifying a plain tree gives a plain tree or fails in an
ordinary way. -/
theorem simplified_endsOrdinarily
    {settings : Settings}
    (supported : settings.registry.Supports)
    {e : Expr}
    (plain : e.IsPlain) :
    (simplified settings e).EndsOrdinarily Expr.IsPlain :=
  Context.simplify_endsOrdinarily supported .fresh plain

/-- Parsed trees have neither wrappers nor foreign objects. -/
theorem isPlain_of_parse
    {text : String}
    {tree : Expr}
    (parsed : parse .standard text = .ok tree) :
    tree.IsPlain :=
  Parse.closed_of_parse (fun _ => trivial) (fun _ _ => trivial)
    (fun _ _ _ _ left right => ⟨left, right⟩) parsed

/-- The standard registry has what simplification relies on. -/
theorem Registry.supports_standard : Registry.standard.Supports := by
  refine Registry.built_standard.supports fun operation value found => ?_
  simp only [Registry.identity?, Table.get?, Registry.standard, List.lookup]
    at found
  split at found
  · cases found
    trivial
  · split at found
    · cases found
      trivial
    · cases found

/-- In every registry that is built by registrations, and within any limits,
simplifying a plain tree gives a plain tree, or a bound is exceeded, or two
numbers have no value.  The failure is reported as it is unless it quotes an
integer that has too many digits. -/
theorem simplified_plain_or_ordinary_failure
    {registry : Registry}
    (built : registry.Built)
    (plainIdentities : ∀ operation value,
      registry.identity? operation = some value ->
      value.IsPlain)
    (limits : Limits)
    (reusesCollisions : Bool)
    {e : Expr}
    (plain : e.IsPlain) :
    (∃ result, simplified ⟨registry, limits, reusesCollisions⟩ e = .ok result ∧
      result.IsPlain) ∨
      ∃ failure, simplified ⟨registry, limits, reusesCollisions⟩ e =
        .error failure ∧
        failure.IsOrdinary ∧
          (failure.settle = failure ∨ failure.settle = .tooManyDigits) := by
  have supported :
      (Settings.mk registry limits reusesCollisions).registry.Supports :=
    built.supports plainIdentities
  have ends := simplified_endsOrdinarily supported plain
  cases returned : simplified ⟨registry, limits, reusesCollisions⟩ e with
  | ok result => exact .inl ⟨result, rfl, ends.returned returned⟩
  | error failure =>
    have ordinary := ends.failed returned
    exact .inr ⟨failure, rfl, ordinary, ordinary.settle⟩

/-- Without an inverse and an identity element for sums, nothing is left of a
sum that cancels; still the simplification does not fail. -/
theorem simplified_plain_or_ordinary_failure_cancelled :
    let e : Expr :=
      .node .sum (.var "x") (.node .product (.int (-1)) (.var "x"))
    ∃ registry : Registry, registry.Built ∧ registry.identity? .sum = none ∧
      e.IsPlain ∧
      ((∃ result, simplified ⟨registry, .standard, true⟩ e = .ok result ∧
        result.IsPlain) ∨
        ∃ failure, simplified ⟨registry, .standard, true⟩ e = .error failure ∧
          failure.IsOrdinary ∧
            (failure.settle = failure ∨ failure.settle = .tooManyDigits)) := by
  have built : Registry.Built ⟨[.sum, .product], [], [], [(1, .product)], []⟩ :=
    Registry.Built.foldlM .empty
      (show [.add .sum, .add .product, .addPromotion .sum .product].foldlM _ _ =
        _ from rfl)
  have plain : Expr.IsPlain
      (.node .sum (.var "x") (.node .product (.int (-1)) (.var "x"))) :=
    ⟨trivial, trivial, trivial⟩
  refine ⟨_, built, rfl, plain, ?_⟩
  exact simplified_plain_or_ordinary_failure built (by rintro _ _ ⟨⟩) .standard
    true plain

end Symbolic
