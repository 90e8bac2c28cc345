import Symbolic.Proofs.ChainLockstep
import Symbolic.Proofs.MemoryGrowth

/-!
# Simplification does not depend on wrappers that are not seen

Alike trees are simplified to alike trees, from caches in which alike trees are
remembered in the same order.  The wrappers around a root use up levels on one
side only, so the induction is on the levels that are left on both sides
together.
-/

namespace Symbolic

open Symbolic.Expr (Alike Matched)
open Symbolic.Result (Both)

/-! ## Memory -/

/-- Alike trees with alike results. -/
structure Remembered.Alike (entry entry' : Remembered) : Prop where
  source : entry.source.Alike entry'.source
  result : entry.result.Matched entry'.result

/-- The same number of results under every fingerprint, alike one by one. -/
def Cache.Alike (cache cache' : Cache) : Prop :=
  ∀ key, List.Forall₂ Remembered.Alike (cache.bucket key) (cache'.bucket key)

namespace Cache

/-- Recording alike entries keeps memories alike. -/
theorem Alike.insert
    {cache cache' : Cache}
    (alike : cache.Alike cache')
    (key : Fingerprint)
    {entry entry' : Remembered}
    (entryAlike : entry.Alike entry')
    (atFront : Bool) :
    (cache.insert key entry atFront).Alike
      (cache'.insert key entry' atFront) := by
  intro other
  by_cases same : other = key
  · subst same
    rw [bucket_insert_self, bucket_insert_self]
    cases atFront with
    | true => exact .cons entryAlike (alike other)
    | false => exact List.rel_append (alike other) (.cons entryAlike .nil)
  · rw [bucket_insert_of_ne key other entry atFront cache same,
      bucket_insert_of_ne key other entry' atFront cache' same]
    exact alike other

/-- Alike entries are searched with matched results. -/
theorem firstEqual_both
    {entries entries' : List Remembered}
    (entriesAlike : List.Forall₂ Remembered.Alike entries entries')
    {source source' : Expr}
    (sourceAlike : source.Alike source') :
    Both (Option.Rel Matched) (firstEqual entries source)
      (firstEqual entries' source') := by
  induction entriesAlike with
  | nil => exact .none
  | @cons entry entry' rest rest' entryAlike restAlike inductive_step =>
    rw [firstEqual, firstEqual, entryAlike.source.sameEqual sourceAlike]
    refine Both.bind_same fun isEqual => ?_
    split
    · exact .some entryAlike.result
    · exact inductive_step

/-- Alike memories answer alike. -/
theorem answer_both
    (settings : Settings)
    (key : Fingerprint)
    {cache cache' : Cache}
    (alike : cache.Alike cache')
    {source source' : Expr}
    (sourceAlike : source.Alike source') :
    Both (Option.Rel Matched) (cache.answer settings key source)
      (cache'.answer settings key source') := by
  refine Both.bind (firstEqual_both (alike key) sourceAlike)
    fun found found' foundMatched => ?_
  cases foundMatched with
  | some matched => exact .some matched
  | none =>
    cases settings.reusesCollisions with
    | false => exact .none
    | true =>
      have entriesAlike := alike key
      generalize cache.bucket key = entries,
        cache'.bucket key = entries' at entriesAlike ⊢
      cases entriesAlike with
      | nil => exact .none
      | cons entryAlike _ => exact .some entryAlike.result

end Cache

namespace Work.Lockstep

theorem remember
    (key : Fingerprint)
    {source source' result result' : Expr}
    (sourceAlike : source.Alike source')
    (resultMatched : Matched result result')
    (atFront : Bool) :
    Lockstep Cache.Alike
      (fun _ _ => True) (Work.remember key source result atFront)
      (Work.remember key source' result' atFront) :=
  fun _ _ start _ _ =>
    ⟨trivial, start.insert key ⟨sourceAlike, resultMatched⟩ atFront⟩

theorem findEqual
    (key : Fingerprint)
    {source source' : Expr}
    (sourceAlike : source.Alike source') :
    Lockstep Cache.Alike (Option.Rel Matched) (Work.findEqual key source)
      (Work.findEqual key source') := by
  intro memory memory' start _ _
  rw [outcome_findEqual, outcome_findEqual]
  exact (Cache.firstEqual_both (start key) sourceAlike).mono
    fun _ _ _ _ matched =>
    ⟨matched, start⟩

theorem retrieve
    (settings : Settings)
    (key : Fingerprint)
    {source source' : Expr}
    (sourceAlike : source.Alike source') :
    Lockstep Cache.Alike (Option.Rel Matched)
      (Work.retrieve settings key source)
      (Work.retrieve settings key source') := by
  intro memory memory' start _ _
  obtain ⟨answered, unchanged⟩ := outcome_retrieve settings key source memory
  obtain ⟨answered', unchanged'⟩ :=
    outcome_retrieve settings key source' memory'
  rw [answered, unchanged, answered', unchanged']
  exact (Cache.answer_both settings key start sourceAlike).mono
    fun _ _ _ _ matched =>
    ⟨matched, start⟩

end Work.Lockstep

/-! ## Rules -/

/-- A question that decides between two trees and further questions, with the
same answer on both sides. -/
theorem Result.Both.choice
    {α α' : Type}
    {post : α -> α' -> Prop}
    {asked asked' : Result Bool}
    (same : asked = asked')
    {chosen : α}
    {chosen' : α'}
    {otherwise : Result α}
    {otherwise' : Result α'}
    (chosenRelated : post chosen chosen')
    (otherwiseBoth : Both post otherwise otherwise') :
    Both post (do if ← asked then return chosen else otherwise)
      (do if ← asked' then return chosen' else otherwise') := by
  subst same
  refine bind_same fun answer => ?_
  split
  · exact chosenRelated
  · exact otherwiseBoth

namespace Expr.Matched

variable {a b : Expr} (matched : Matched a b)

include matched

theorem askZero_eq : a.askZero = b.askZero := by
  cases matched <;> rfl

theorem askOne_eq : a.askOne = b.askOne := by
  cases matched <;> rfl

end Expr.Matched

namespace Rules

variable {left left' right right' : Expr} (leftMatched : Matched left left')
  (rightMatched : Matched right right')

include leftMatched rightMatched

theorem negativePower_matched :
    Matched (negativePower .standard .power left right)
      (negativePower .standard .power left' right') := by
  have whole : Matched (.node .power left right) (.node .power left' right') :=
    .group (by simp [Operation.arithmetic]) leftMatched rightMatched
  cases rightMatched with
  | const value =>
    change Matched (if value.isNegative then _ else _)
      (if value.isNegative then _ else _)
    split
    · exact .group (by simp [Operation.arithmetic]) (.const _)
        (.group (by simp [Operation.arithmetic]) leftMatched (.const _))
    · exact whole
  | _ => exact whole

/-- The same rule applies to alike operands. -/
theorem apply_both
    {operation : Operation}
    (arithmetic : operation ∈ Operation.arithmetic) :
    Both Matched (Rules.apply .standard operation left right)
      (Rules.apply .standard operation left' right') := by
  have whole := Matched.group arithmetic leftMatched rightMatched
  rcases Operation.mem_arithmetic_iff.1 arithmetic with
    rfl | rfl | rfl | rfl | rfl
  · change Both Matched (Rules.sum _ left right) (Rules.sum _ left' right')
    exact .choice rightMatched.askZero_eq leftMatched
      (.choice leftMatched.askZero_eq rightMatched whole)
  · exact whole
  · change Both Matched (Rules.product _ left right)
      (Rules.product _ left' right')
    exact .choice leftMatched.askZero_eq (.const _) <|
      .choice rightMatched.askZero_eq (.const _) <|
      .choice rightMatched.askOne_eq leftMatched <|
      .choice leftMatched.askOne_eq rightMatched whole
  · exact whole
  · change Both Matched (Rules.power .standard .power left right)
      (Rules.power .standard .power left' right')
    exact .choice rightMatched.askZero_eq (.const _) <|
      .choice leftMatched.askZero_eq (.const _) <|
      .choice leftMatched.askOne_eq (.const _) <|
      .choice rightMatched.askOne_eq leftMatched
        (negativePower_matched leftMatched rightMatched)

end Rules

/-! ## Passes -/

namespace Pass

/-- Passes that came to alike trees and both call for another pass, or both do
not. -/
structure Alike (pass pass' : Pass) : Prop where
  result : pass.result.Matched pass'.result
  isChanged : pass.isChanged = pass'.isChanged

/-- Alike nodes both go through their chains, or both do not. -/
theorem goesThroughChain_eq
    {operation : Operation}
    (arithmetic : operation ∈ Operation.arithmetic)
    {left left' right right' : Expr}
    (leftAlike : left.Alike left')
    (rightAlike : right.Alike right')
    (sameSees : operation.sees left right = operation.sees left' right') :
    goesThroughChain .standard operation left right =
      goesThroughChain .standard operation left' right' := by
  rcases Operation.mem_arithmetic_iff.1 arithmetic with
    rfl | rfl | rfl | rfl | rfl
  · rfl
  · rfl
  · rfl
  · have seen : [_, _, _, _, _] = [_, _, _, _, _] := sameSees
    simp only [List.cons.injEq, and_true] at seen
    obtain ⟨sameConst, -, -, -, sameWrap⟩ := seen
    have sameOne := leftAlike.isOne_eq sameConst
    have fraction (one other : Expr) :
        goesThroughChain .standard .quotient one other =
        if one.isOne then goesThroughChain .standard .quotient (.int 1) other
        else .ok true := by
      unfold goesThroughChain isUnitFraction
      cases one.isOne <;> rfl
    rw [fraction left, fraction left', sameOne]
    rw [sameOne] at sameWrap
    split
    · next isOne =>
      simp only [isOne, Bool.true_and] at sameWrap
      cases isWrap : right.isWrap with
      | true =>
        cases right <;> cases isWrap
        cases right' <;> cases sameWrap
        rfl
      | false =>
        have matched := rightAlike.matched_of_bare isWrap (sameWrap ▸ isWrap)
        cases matched <;> rfl
    · rfl
  · rfl

section Lockstep

variable {settings : Settings} (standard : settings.registry = .standard)
  {recursion recursion' : Recursion}
  (recursive : ∀ e e', e.Alike e' ->
    Work.Lockstep Cache.Alike Matched (recursion e) (recursion' e'))

include recursive

/-- Operands are simplified once more in lockstep. -/
theorem refine_lockstep
    {e e' : Expr}
    (matched : Matched e e') :
    Work.Lockstep Cache.Alike Matched (refine recursion e)
      (refine recursion' e') := by
  cases matched with
  | node arithmetic leftAlike rightAlike sameSees =>
    refine .bind (recursive _ _ leftAlike) fun _ _ leftMatched => ?_
    refine .bind (recursive _ _ rightAlike) fun _ _ rightMatched => ?_
    exact .pure (.group arithmetic leftMatched rightMatched)
  | blank => exact .pure .blank
  | const value => exact .pure (.const value)
  | var name => exact .pure (.var name)

include standard

/-- Passes over alike operands end in lockstep. -/
theorem finish_lockstep
    (key : Fingerprint)
    {source source' : Expr}
    (sourceAlike : source.Alike source')
    {operation : Operation}
    (arithmetic : operation ∈ Operation.arithmetic)
    {left left' right right' : Expr}
    (leftAlike : left.Alike left')
    (rightAlike : right.Alike right') :
    Work.Lockstep Cache.Alike Alike
      (finish settings recursion key source operation left right)
      (finish settings recursion' key source' operation left' right') := by
  unfold finish
  rw [standard]
  refine .bind (recursive _ _ leftAlike) fun simple simple' leftMatched => ?_
  refine .bind (recursive _ _ rightAlike) fun other other' rightMatched => ?_
  rw [leftMatched.isConst_eq, rightMatched.isConst_eq]
  split
  · next constants =>
    obtain ⟨isConst, isConst'⟩ := Bool.and_eq_true_iff.1 constants
    obtain rfl := leftMatched.alike.eq_of_isConst
      (leftMatched.isConst_eq.trans isConst) isConst
    obtain rfl := rightMatched.alike.eq_of_isConst
      (rightMatched.isConst_eq.trans isConst') isConst'
    have evaluates : Both Matched (operation.evaluate simple other)
        (operation.evaluate simple other) :=
      Both.refl fun _ evaluated =>
        .of_isConst (Operation.isConst_of_evaluate evaluated)
    exact .bind (.lift evaluates) fun _ _ valueMatched =>
      .pure ⟨valueMatched, rfl⟩
  · refine .bind (.remember key sourceAlike
      (.group arithmetic leftMatched rightMatched) false) fun _ _ _ => ?_
    refine .bind (.lift (Rules.apply_both leftMatched rightMatched arithmetic))
      fun ruled ruled' ruledMatched => ?_
    refine .bind (refine_lockstep recursive ruledMatched)
      fun result result' resultMatched => ?_
    rw [resultMatched.isCompound_eq, resultMatched.alike.fingerprint_eq]
    split
    · exact .lift_bind fun resultKey _ => .pure ⟨resultMatched, rfl⟩
    · exact .pure ⟨resultMatched, rfl⟩

theorem afterReduction_lockstep
    (key : Fingerprint)
    {source source' : Expr}
    (sourceAlike : source.Alike source')
    {e e' : Expr}
    (matched : Matched e e') :
    Work.Lockstep Cache.Alike Alike
      (afterReduction settings recursion key source e)
      (afterReduction settings recursion' key source' e') := by
  have final : Work.Lockstep Cache.Alike Alike (final <$> recursion e)
      (final <$> recursion' e') :=
    .map ((recursive e e' matched.alike).mono fun _ _ resultMatched =>
      ⟨resultMatched, rfl⟩)
  cases matched with
  | node arithmetic leftAlike rightAlike sameSees =>
    exact finish_lockstep standard recursive key sourceAlike arithmetic
      leftAlike rightAlike
  | blank => exact final
  | const value => exact final
  | var name => exact final

/-- Passes over alike trees come to alike trees. -/
theorem run_lockstep
    {e e' : Expr}
    (matched : Matched e e') :
    Work.Lockstep Cache.Alike Alike (run settings recursion e)
      (run settings recursion' e') := by
  have alike := matched.alike
  cases matched with
  | @node operation left left' right right' arithmetic leftAlike rightAlike sameSees =>
    rw [run_node, run_node, alike.fingerprint_eq, standard,
      goesThroughChain_eq arithmetic leftAlike rightAlike sameSees]
    refine .lift_bind fun key _ => .lift_bind fun isChain goesThrough => ?_
    rcases goesThroughChain_cases arithmetic goesThrough with
      ⟨rfl, _, _, _, chain, -⟩ | ⟨rfl, -⟩
    · refine .bind (reduceChain_lockstep standard recursive chain alike)
        fun _ _ reduced => ?_
      exact afterReduction_lockstep standard recursive key alike reduced
    · exact finish_lockstep standard recursive key alike arithmetic leftAlike
        rightAlike
  | _ => exact .throw (.same _) _

end Lockstep
end Pass

/-! ## The engine -/

section Engine

variable {settings : Settings} (standard : settings.registry = .standard)

include standard

section Node

variable {recursion recursion' : Recursion}
  (recursive : ∀ e e', e.Alike e' ->
    Work.Lockstep Cache.Alike Matched (recursion e) (recursion' e'))

include recursive

/-- Passes are repeated in lockstep, by induction on their number. -/
theorem iterate_lockstep
    {source source' : Expr}
    (sourceAlike : source.Alike source')
    (passes : Nat)
    {current current' : Expr}
    (matched : Matched current current') :
    Work.Lockstep Cache.Alike Matched
      (iterate settings recursion source passes current)
      (iterate settings recursion' source' passes current') := by
  induction passes generalizing current current' with
  | zero => exact .throw (.divergence _ _ sourceAlike.equal) _
  | succ passes inductive_step =>
    rw [iterate, iterate]
    refine .bind (Pass.run_lockstep standard recursive matched) ?_
    rintro ⟨result, isChanged⟩ ⟨result', _⟩ ⟨resultMatched, rfl⟩
    dsimp only at resultMatched ⊢
    have resultAlike := resultMatched.alike
    split
    · rw [resultAlike.fingerprint_eq]
      refine .lift_bind fun key _ => ?_
      refine .bind (.findEqual key resultAlike)
        fun found found' foundMatched => ?_
      cases foundMatched with
      | some previous => exact .bind (.note _ _) fun _ _ _ => .pure previous
      | none =>
        refine .bind (.note _ _) fun _ _ _ => .isolated ?_
        exact .bind (.remember key resultAlike resultMatched false) fun _ _ _ =>
          inductive_step resultMatched
    · exact .pure resultMatched

theorem simplifyNode_lockstep
    {source source' : Expr}
    (matched : Matched source source') :
    Work.Lockstep Cache.Alike Matched (simplifyNode settings recursion source)
      (simplifyNode settings recursion' source') := by
  have alike := matched.alike
  unfold simplifyNode
  rw [alike.fingerprint_eq]
  refine .lift_bind fun key _ => ?_
  refine .bind (.retrieve settings key alike)
    fun found found' foundMatched => ?_
  cases foundMatched with
  | some remembered => exact .bind (.note _ _) fun _ _ _ => .pure remembered
  | none =>
    refine .bind (iterate_lockstep standard recursive alike _ matched)
      fun result result' resultMatched => ?_
    exact .bind (.remember key alike resultMatched true) fun _ _ _ =>
      .pure resultMatched

end Node

/-- The simplifications of alike trees are in lockstep, however many levels are
left. -/
theorem simplifyAt_lockstep
    (levels levels' : Nat)
    {e e' : Expr}
    (alike : e.Alike e') :
    Work.Lockstep Cache.Alike Matched (simplifyAt settings levels e)
      (simplifyAt settings levels' e') := by
  induction total :
    levels + levels' using Nat.strongRecOn generalizing levels levels' e e' with
  | ind total inductive_step =>
    cases levels with
    | zero => exact .throw_left _ _ _ _
    | succ levels =>
      cases levels' with
      | zero => exact .throw_right _ _ _ _
      | succ levels' =>
        cases isWrap : e.isWrap with
        | true =>
          cases e with
          | wrap inner =>
            exact inductive_step _ (by omega) levels (levels' + 1)
              alike.inner_left rfl
          | _ => cases isWrap
        | false =>
          cases isWrap' : e'.isWrap with
          | true =>
            cases e' with
            | wrap inner' =>
              exact inductive_step _ (by omega) (levels + 1) levels'
                alike.inner_right rfl
            | _ => cases isWrap'
          | false =>
            have recursive (e e' : Expr) (alike : e.Alike e') :=
              inductive_step _ (by omega) levels levels' alike rfl
            cases alike.matched_of_bare isWrap isWrap' with
            | node arithmetic leftAlike rightAlike sameSees =>
              exact simplifyNode_lockstep standard recursive
                (.node arithmetic leftAlike rightAlike sameSees)
            | blank => exact .pure .blank
            | const value => exact .pure (.const value)
            | var name => exact .pure (.var name)

end Engine

/-- Equal trees of arithmetic whose operations see the same of their operands
are simplified to equal trees, or their simplifications fail with errors that
are reported alike. -/
theorem simplified_of_equal
    {settings : Settings}
    (standard : settings.registry = .standard)
    {a b : Expr}
    (isOver : a.Over Operation.arithmetic)
    (isOver' : b.Over Operation.arithmetic)
    (equal : a.equal b = .ok true)
    (sameSeen : a.seen = b.seen)
    (withinDepth : (simplified settings a).IsWithinDepth)
    (withinDepth' : (simplified settings b).IsWithinDepth) :
    (∃ result result', simplified settings a = .ok result ∧
      simplified settings b = .ok result' ∧ result.equal result' = .ok true) ∨
    ∃ failure failure', simplified settings a = .error failure ∧
      simplified settings b = .error failure' ∧
        failure.settle.Alike failure'.settle := by
  have alike : a.Alike b := ⟨isOver, isOver', equal, sameSeen⟩
  have outcome :
      Both Matched (simplified settings a) (simplified settings b) := by
    rw [simplified_eq] at withinDepth withinDepth' ⊢
    rw [simplified_eq]
    have both := simplifyAt_lockstep standard settings.limits.depth
      settings.limits.depth alike
      .empty .empty (fun _ => .nil) withinDepth withinDepth'
    exact both.mono fun _ _ _ _ related => related.1
  cases returned : simplified settings a with
  | ok result =>
    rw [returned] at outcome
    obtain ⟨result', returned', matched⟩ := outcome.exists_ok
    exact .inl ⟨result, result', rfl, returned', matched.alike.equal⟩
  | error failure =>
    rw [returned] at outcome
    obtain ⟨failure', failed, failureAlike⟩ := outcome.exists_error
    exact .inr ⟨failure, failure', rfl, failed, failureAlike.settle⟩

/-- The wrappers in `((x+(x)))-y*((z/(y)))` are not seen: without them the
result is the same. -/
theorem simplified_of_equal_cancelled :
    let x : Expr := .var "x"
    let y : Expr := .var "y"
    let z : Expr := .var "z"
    let wrapped : Expr := .node .difference (.wrap (.node .sum x (.wrap x)))
      (.node .product y (.wrap (.node .quotient z (.wrap y))))
    let plain : Expr := .node .difference (.node .sum x x)
      (.node .product y (.node .quotient z y))
    ∃ result result', simplified .standard wrapped = .ok result ∧
      simplified .standard plain = .ok result' ∧
        result.equal result' = .ok true := by
  intro x y z wrapped plain
  have returned :
      simplified .standard wrapped = .ok (.node .sum (.node .product (.int 2) x)
      (.node .product (.int (-1)) z)) := by
    cbv
  have returned' :
      simplified .standard plain = .ok (.node .sum (.node .product (.int 2) x)
      (.node .product (.int (-1)) z)) := by
    cbv
  refine (simplified_of_equal rfl ?_ ?_ ?_ ?_ ?_ ?_).resolve_right ?_
  · simp [wrapped, x, y, z, Expr.Over, Operation.arithmetic]
  · simp [plain, x, y, z, Expr.Over, Operation.arithmetic]
  · cbv
  · rfl
  · rw [returned]
    exact Result.isWithinDepth_ok _
  · rw [returned']
    exact Result.isWithinDepth_ok _
  · rintro ⟨failure, failure', failed, -⟩
    rw [returned] at failed
    cases failed

/-- Wrappers that are seen: the unit fraction `1/(x)` fails, in `c-((a-b))` the
inner difference is not opened, and in `x^2*x^(4)` the second power is not found
to be one of the first. -/
theorem simplified_of_wrapped_operand :
    let a : Expr := .var "a"
    let b : Expr := .var "b"
    let c : Expr := .var "c"
    let x : Expr := .var "x"
    let negated (e : Expr) : Expr := .node .product (.int (-1)) e
    let square : Expr := .node .power x (.int 2)
    (Expr.equal (.node .quotient (.int 1) (.wrap x))
      (.node .quotient (.int 1) x) = .ok true ∧
      simplified .standard (.node .quotient (.int 1) (.wrap x)) =
        .error .noOperation ∧
      simplified .standard (.node .quotient (.int 1) x) =
        .ok (.node .quotient (.int 1) x)) ∧
    (simplified .standard
      (.node .difference c (.wrap (.node .difference a b))) =
        .ok (.node .sum c (negated (.node .sum a (negated b)))) ∧
      simplified .standard (.node .difference c (.node .difference a b)) =
        .ok (.node .sum (.node .sum c b) (negated a))) ∧
    simplified .standard
      (.node .product square (.node .power x (.wrap (.int 4)))) =
        .ok (.node .product square (.node .power x (.int 4))) ∧
      simplified .standard (.node .product square (.node .power x (.int 4))) =
        .ok (.node .power square (.int 3)) := by
  refine ⟨⟨?_, ?_, ?_⟩, ⟨?_, ?_⟩, ?_, ?_⟩ <;> cbv

end Symbolic
