import Symbolic.Proofs.PlainChains
import Symbolic.Proofs.RelatedRuns
import Symbolic.Proofs.TreeClass

/-!
# Simplification without memory

What a simplification remembers saves work, and it ends the cycles that some
trees run into.  `recompute` goes without: it simplifies every operand anew
wherever it is met, and repeats passes until one of them asks for no other.  One
amount of fuel bounds both the passes and the levels.  More fuel never changes
an answer, so every tree that is recomputed at all has one answer, and a least
amount of fuel that it takes.

Whoever looks for the least fuel finds that a pass over a tree only asks for
trees that take less, and that the same is true of the trees which the passes
lead to.
-/

namespace Symbolic

/-- What a pass over a tree comes to if a function simplifies the operands and
nothing is remembered. -/
def Pass.recomputed
    (settings : Settings)
    (operands : Expr -> Result Expr)
    (e : Expr) : Result Pass :=
  ((Pass.run settings (fun operand => liftM (operands operand)) e).outcome
    .empty).1

/-- Simplify a tree without memory. -/
def recompute (settings : Settings) : (fuel : Nat) -> Expr -> Result Expr
  | 0, e => .error (.divergence .depth settings.limits.depth (some e))
  | fuel + 1, e =>
    match e with
    | .wrap inner => recompute settings fuel inner
    | .node operation left right => do
      let pass ← Pass.recomputed settings (recompute settings fuel)
        (.node operation left right)
      if pass.isChanged then recompute settings fuel pass.result
      else return pass.result
    | .foreign object => .error (.unknownOperand .simplification object)
    | leaf => .ok leaf

/-! ## More fuel -/

namespace Work

variable {α β : Type}

/-- A run succeeds if both of its parts do. -/
theorem outcome_bind_eq_ok
    {work : Work α}
    {next : α -> Work β}
    {memory : Memory}
    {b : β} :
    ((work >>= next).outcome memory).1 = .ok b ↔
      ∃ a, (work.outcome memory).1 = .ok a ∧
        ((next a).outcome (work.outcome memory).2).1 = .ok b := by
  rw [outcome_bind]
  generalize work.outcome memory = reached
  obtain ⟨result, after⟩ := reached
  cases result with
  | ok a => simp
  | error failure => simp

/-- Whatever is remembered before either, the second computation returns the
image of what the first one returns. -/
def Matches (image : α -> β) (first : Work α) (second : Work β) : Prop :=
  ∀ memory memory' a, (first.outcome memory).1 = .ok a ->
    (second.outcome memory').1 = .ok (image a)

namespace Matches

theorem lift
    {image : α -> β}
    {result : Result α}
    {result' : Result β}
    (same : ∀ a, result = .ok a -> result' = .ok (image a)) :
    Matches image (liftM result) (liftM result') :=
  fun _ _ a returned => same a returned

theorem note (event event' : Event) :
    Matches id (Work.note event) (Work.note event') :=
  fun _ _ _ returned => returned

theorem remember
    (key key' : Fingerprint)
    (source source' result result' : Expr)
    (atFront : Bool) :
    Matches id (Work.remember key source result atFront)
      (Work.remember key' source' result' atFront) :=
  fun _ _ _ returned => returned

/-- Matched runs may be continued by matched runs. -/
theorem bind
    {γ : Type}
    {first second : Work α}
    {next : α -> Work β}
    {next' : α -> Work γ}
    {image : β -> γ}
    (isMatched : Matches id first second)
    (nextMatched : ∀ a, Matches image (next a) (next' a)) :
    Matches image (first >>= next) (second >>= next') := by
  intro memory memory' b returned
  obtain ⟨a, first, later⟩ := outcome_bind_eq_ok.1 returned
  exact outcome_bind_eq_ok.2 ⟨a, isMatched memory memory' a first,
    nextMatched a _ _ b later⟩

end Matches

/-- To return the same is respected by the ways of building computations. -/
def matching : Congruence where
  Related := Matches id
  lift := fun _ => .lift fun _ returned => returned
  note := fun event => .note event event
  bind := .bind

end Work

section Fuel

variable {settings : Settings}

/-- A pass comes to the same if more operands are simplified. -/
theorem Pass.recomputed_mono
    {operands operands' : Expr -> Result Expr}
    (more : ∀ e r, operands e = .ok r -> operands' e = .ok r)
    {e : Expr}
    {pass : Pass}
    (ran : Pass.recomputed settings operands e = .ok pass) :
    Pass.recomputed settings operands' e = .ok pass :=
  Pass.run_related Work.matching rfl
    (fun operand => Work.Matches.lift (more operand))
    (fun result => Work.Matches.remember _ _ _ _ result result false) .empty
      .empty pass ran

/-- Leaves are computed to themselves. -/
theorem eq_of_recompute_leaf
    {e r : Expr}
    (isLeaf : e.isCompound = false)
    {fuel : Nat}
    (recomputed : recompute settings fuel e = .ok r) :
    r = e := by
  cases fuel with
  | zero => cases recomputed
  | succ fuel =>
    cases e with
    | node operation left right => cases isLeaf
    | wrap inner => cases isLeaf
    | foreign object => cases recomputed
    | _ =>
      cases recomputed
      rfl

/-- A node is recomputed by a pass, which may call for another one. -/
theorem recompute_node_eq_ok
    {fuel : Nat}
    {operation : Operation}
    {left right r : Expr} :
    recompute settings (fuel + 1) (.node operation left right) = .ok r ↔
      ∃ pass, Pass.recomputed settings (recompute settings fuel)
        (.node operation left right) =
          .ok pass ∧
        if pass.isChanged then recompute settings fuel pass.result = .ok r
        else pass.result = r := by
  rw [recompute, Result.bind_eq_ok]
  refine exists_congr fun pass => and_congr_right fun _ => ?_
  split <;> simp

theorem recompute_succ
    {fuel : Nat}
    {e r : Expr}
    (recomputed : recompute settings fuel e = .ok r) :
    recompute settings (fuel + 1) e = .ok r := by
  induction fuel generalizing e r with
  | zero => cases recomputed
  | succ fuel inductive_step =>
    cases e with
    | node operation left right =>
      obtain ⟨pass, ran, later⟩ := recompute_node_eq_ok.1 recomputed
      have ranAgain := Pass.recomputed_mono (fun _ _ => inductive_step) ran
      refine recompute_node_eq_ok.2 ⟨pass, ranAgain, ?_⟩
      split at later
      · next isChanged =>
        rw [if_pos isChanged]
        exact inductive_step later
      · next isLast =>
        rw [if_neg isLast]
        exact later
    | wrap inner => exact inductive_step (e := inner) recomputed
    | _ => exact recomputed

/-- More fuel gives the same result. -/
theorem recompute_mono
    {fuel fuel' : Nat}
    (more : fuel ≤ fuel')
    {e r : Expr}
    (recomputed : recompute settings fuel e = .ok r) :
    recompute settings fuel' e = .ok r := by
  induction more with
  | refl => exact recomputed
  | step _ inductive_step => exact recompute_succ inductive_step

/-- The answer does not depend on the fuel. -/
theorem recompute_unique
    {fuel fuel' : Nat}
    {e r r' : Expr}
    (recomputed : recompute settings fuel e = .ok r)
    (recomputed' : recompute settings fuel' e = .ok r') :
    r = r' := by
  have both := recompute_mono (Nat.le_max_left fuel fuel') recomputed
  rw [recompute_mono (Nat.le_max_right fuel fuel') recomputed'] at both
  exact (Except.ok.inj both).symm

/-- The tree has an answer. -/
def Recomputes (settings : Settings) (e r : Expr) : Prop :=
  ∃ fuel, recompute settings fuel e = .ok r

/-- The tree takes more fuel than the given amount. -/
def TakesMore (settings : Settings) (fuel : Nat) (e : Expr) : Prop :=
  ∀ r, recompute settings fuel e ≠ .ok r

/-- There is a least amount of fuel. -/
theorem exists_least_fuel
    {fuel : Nat}
    {e r : Expr}
    (recomputed : recompute settings fuel e = .ok r) :
    ∃ less < fuel, recompute settings (less + 1) e = .ok r ∧
      TakesMore settings less e := by
  induction fuel with
  | zero => cases recomputed
  | succ fuel inductive_step =>
    by_cases takesMore : TakesMore settings fuel e
    · exact ⟨fuel, Nat.lt_succ_self fuel, recomputed, takesMore⟩
    · obtain ⟨r', already⟩ := not_forall_not.1 takesMore
      obtain rfl := recompute_unique already recomputed
      obtain ⟨less, isLess, least⟩ := inductive_step already
      exact ⟨less, Nat.lt_succ_of_lt isLess, least⟩

end Fuel

/-! ## Standard trees -/

/-- Plain trees over the operations of arithmetic. -/
structure Expr.IsStandard (e : Expr) : Prop where
  plain : e.IsPlain
  isOver : e.Over Operation.arithmetic

namespace Expr.IsStandard

theorem operands
    {operation : Operation}
    {left right : Expr}
    (standard : (node operation left right).IsStandard) :
    left.IsStandard ∧ right.IsStandard :=
  ⟨⟨standard.plain.1, standard.isOver.2.1⟩,
    ⟨standard.plain.2, standard.isOver.2.2⟩⟩

theorem node
    {operation : Operation}
    (arithmetic : operation ∈ Operation.arithmetic)
    {left right : Expr}
    (leftStandard : left.IsStandard)
    (rightStandard : right.IsStandard) :
    (node operation left right).IsStandard :=
  ⟨⟨leftStandard.plain, rightStandard.plain⟩, arithmetic, leftStandard.isOver,
    rightStandard.isOver⟩

/-- A standard tree contains no foreign object. -/
theorem foreign?_eq_none {e : Expr} (standard : e.IsStandard) :
    e.foreign? = none :=
  standard.plain.foreign?_eq_none

/-- Standard trees that are equal are the same tree, since the id of an
operation of arithmetic tells which one it is. -/
theorem eq_of_equal
    {a b : Expr}
    (standard : a.IsStandard)
    (standard' : b.IsStandard)
    (equal : a.equal b = .ok true) :
    a = b := by
  have same := stripped_eq_of_equal standard.isOver standard'.isOver equal
  rwa [stripped_eq_self standard.plain.hasWrapper_eq_false,
    stripped_eq_self standard'.plain.hasWrapper_eq_false] at same

/-- Standard trees that differ are compared without failure. -/
theorem equal_eq_false
    {a b : Expr}
    (standard : a.IsStandard)
    (standard' : b.IsStandard)
    (different : a ≠ b) :
    a.equal b = .ok false := by
  obtain ⟨isEqual, compared⟩ :=
    exists_equal_eq_ok standard.foreign?_eq_none standard'.foreign?_eq_none
  cases isEqual with
  | true => exact absurd (standard.eq_of_equal standard' compared) different
  | false => exact compared

end Expr.IsStandard

/-- Simplification does not leave the standard trees. -/
theorem TreeClass.standard : TreeClass Expr.IsStandard Expr.IsStandard where
  const := fun _ => ⟨trivial, trivial⟩
  inner := fun _ isStandard => isStandard.plain.elim
  operands := fun _ _ _ => Expr.IsStandard.operands
  group := fun _ primary _ _ => .node (Operation.arithmetic_of_primary primary)
  arithmetic := fun _ _ _ isStandard => isStandard.isOver.1
  ofClean := fun _ => id
  leaf := fun _ isStandard _ => isStandard
  notWrap := fun _ isStandard => isStandard.plain
  fraction := fun _ _ _ => .node (by simp [Operation.arithmetic])
  empty := fun _ _ _ _ _ _ _ _ _ => ⟨trivial, trivial⟩
  regroup := fun _ _ _ _ _ isStandard leftStandard rightStandard _ =>
    .node isStandard.isOver.1 leftStandard rightStandard

section Standard

variable {settings : Settings} (standard : settings.registry = .standard)

include standard

/-- A pass over a standard tree leads to a standard tree if the simplification
of operands does. -/
theorem Pass.isClean_of_recomputed
    {operands : Expr -> Result Expr}
    (recursive : ∀ e r, e.IsStandard -> operands e = .ok r ->
      CleanResult Expr.IsStandard e r)
    {operation : Operation}
    {left right : Expr}
    (isStandard : (Expr.node operation left right).IsStandard)
    {pass : Pass}
    (ran : Pass.recomputed settings operands (.node operation left right) =
      .ok pass) :
    pass.IsClean Expr.IsStandard := by
  have keeps : (Pass.run settings (fun operand => liftM (operands operand))
      (.node operation left right)).Keeps
        (fun _ => True) (Pass.IsClean Expr.IsStandard) :=
    TreeClass.standard.run_keeps standard
      (fun e eStandard => Work.Keeps.lift fun r => recursive e r eStandard)
      (fun _ _ _ _ _ _ => ⟨trivial, fun _ _ => trivial⟩)
      isStandard.isOver.1 isStandard.operands.1 isStandard.operands.2
  exact (keeps .empty trivial).2 pass ran

theorem cleanResult_of_recompute
    {fuel : Nat}
    {e r : Expr}
    (isStandard : e.IsStandard)
    (recomputed : recompute settings fuel e = .ok r) :
    CleanResult Expr.IsStandard e r := by
  induction fuel generalizing e r with
  | zero => cases recomputed
  | succ fuel inductive_step =>
    cases e with
    | node operation left right =>
      obtain ⟨pass, ran, later⟩ := recompute_node_eq_ok.1 recomputed
      have isClean := Pass.isClean_of_recomputed standard
        (fun e r eStandard answered => inductive_step eStandard answered)
          isStandard ran
      refine cleanResult_node ?_
      split at later
      · exact (inductive_step isClean.1 later).1
      · rw [← later]
        exact isClean.1
    | wrap inner => exact isStandard.plain.elim
    | foreign object => exact isStandard.plain.elim
    | _ =>
      cases recomputed
      exact ⟨isStandard, fun _ => rfl⟩

end Standard
end Symbolic
