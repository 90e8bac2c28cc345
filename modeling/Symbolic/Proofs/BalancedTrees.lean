import Mathlib.Data.Nat.Log
import Symbolic.Proofs.CollectEnds
import Symbolic.Proofs.TreeClass

/-!
# Joining loses nothing

Terms are joined in rounds, and a round halves their number.  If no term is a
constant, the tree has exactly the given terms as operands, in their order;
opening it gives them back.  Each round puts one more node above a term, apart
from one that is carried over, so that no term is deeper than there are rounds;
the first term is never carried over, and it is that deep.

If some terms are integers, neighbouring ones may be evaluated.  The value of
the tree is still the sum, or product, of the values of the terms, whatever
integers the other terms stand for.
-/

namespace Symbolic

/-! ## Operands -/

namespace Expr

/-- The largest parts of a tree that are no nodes of an operation, from left to
right, each with its depth below the root. -/
def operands (operation : Operation) : Expr -> List (Expr × Nat)
  | node other left right =>
    if other.id = operation.id then
      (left.operands operation ++ right.operands operation).map fun place =>
        (place.1, place.2 + 1)
    else [(node other left right, 0)]
  | e => [(e, 0)]

/-- A variable, or a node that does not belong to the chains of the focus. -/
structure IsChainOperand (focus : Operation) (inverse : Option Inverse)
    (e : Expr) : Prop where
  notBlank : e.isBlank = false
  notConst : e.isConst = false
  notWrap : e.isWrap = false
  notForeign : ∀ object, e ≠ .foreign object
  isTerm : e.IsTerm focus inverse

variable {operation : Operation} {inverse : Option Inverse} {e : Expr}

section Node

variable {other : Operation} (same : other.id = operation.id)
  (left right : Expr)

include same

/-- The operands of a grouping lie one level deeper. -/
theorem operands_node :
    (node other left right).operands operation =
      (left.operands operation ++ right.operands operation).map fun place =>
        (place.1, place.2 + 1) := by
  rw [operands, if_pos same]

theorem map_fst_operands_node :
    ((node other left right).operands operation).map Prod.fst =
      (left.operands operation).map Prod.fst ++
        (right.operands operation).map Prod.fst := by
  rw [operands_node same, List.map_map, List.map_append]
  rfl

end Node

/-- A term has no operand but itself. -/
theorem operands_eq_self (isTerm : e.IsTerm operation inverse) :
    e.operands operation = [(e, 0)] := by
  cases e with
  | node other left right =>
    rw [operands, if_neg (isTerm other left right rfl).1]
  | _ => rfl

/-- What is no chain is opened to itself. -/
theorem openChain_eq_self
    {upright : Bool}
    (isOperand : e.IsChainOperand operation inverse) :
    openChain operation inverse upright e = .ok [e] := by
  cases e with
  | blank => cases isOperand.notBlank
  | const value => cases isOperand.notConst
  | var name => exact openChain_var name
  | node other left right =>
    obtain ⟨different, noInverse⟩ := isOperand.isTerm other left right rfl
    exact openChain_other different noInverse
  | wrap inner => cases isOperand.notWrap
  | foreign object => exact absurd rfl (isOperand.notForeign object)

/-- Opening a tree gives its operands if none of them can be opened further. -/
theorem openChain_eq_operands
    {upright : Bool}
    (operandsGood : ∀ place ∈ e.operands operation,
      place.1.IsChainOperand operation inverse) :
    openChain operation inverse upright e =
      .ok ((e.operands operation).map Prod.fst) := by
  induction e with
  | node other left right leftStep rightStep =>
    by_cases same : other.id = operation.id
    · rw [operands_node same] at operandsGood
      simp only [List.forall_mem_map, List.forall_mem_append] at operandsGood
      rw [openChain_focus same, leftStep operandsGood.1,
        rightStep operandsGood.2, map_fst_operands_node same]
      rfl
    · rw [operands, if_neg same] at operandsGood ⊢
      exact openChain_eq_self (operandsGood _ List.mem_cons_self)
  | _ => exact openChain_eq_self (operandsGood _ List.mem_cons_self)

end Expr

namespace Operation

variable {operation : Operation} {a b e : Expr}

/-- The trees can be joined and are not evaluated. -/
def Groups (e : Expr) : Prop :=
  e.isConst = false ∧ ∀ object, e ≠ .foreign object

/-- What is no constant is not evaluated. -/
theorem join_of_groups (groups : Groups a) (b : Expr) :
    operation.join a b = .ok (.node operation a b) := by
  cases a with
  | const value => cases groups.1
  | foreign object => exact absurd rfl (groups.2 object)
  | _ => rfl

theorem groups_node (left right : Expr) : Groups (.node operation left right) :=
  ⟨rfl, by simp⟩

/-- Joining trees puts their operands one after the other. -/
theorem operands_joinAll
    {terms : List Expr}
    (allGroup : ∀ term ∈ terms, Groups term)
    (joined : operation.joinAll terms = .ok e) :
    (e.operands operation).map Prod.fst =
      terms.flatMap fun term => (term.operands operation).map Prod.fst := by
  have preserved := joinAll_total Groups
    (List.flatMap fun term => (term.operands operation).map Prod.fst) ?_ ?_
      allGroup joined
  · simpa using preserved.2
  · intro a b e left _ isJoined
    cases (join_of_groups left b).symm.trans isJoined
    refine ⟨groups_node a b, fun rest => ?_⟩
    simp only [List.flatMap_cons, Expr.map_fst_operands_node rfl,
      List.append_assoc]
  · intro term rest rest' same
    simp only [List.flatMap_cons, same]

/-- A round adds at most one node above an operand. -/
theorem joinPairs_depth
    (terms : List Expr)
    (depth : Nat) :
    ∀ joined, (∀ term ∈ terms, Groups term) ->
      operation.joinPairs terms = .ok joined ->
      (∀ term ∈ terms, ∀ place ∈ term.operands operation, place.2 ≤ depth) ->
        ∀ tree ∈ joined, Groups tree ∧ ∀ place ∈ tree.operands operation,
          place.2 ≤ depth + 1 := by
  fun_induction joinPairs operation terms with
  | case1 first second rest inductive_step =>
    intro joined allGroup returned bounded
    obtain ⟨firstGroups, laterGroup⟩ := List.forall_mem_cons.1 allGroup
    obtain ⟨secondGroups, restGroup⟩ := List.forall_mem_cons.1 laterGroup
    obtain ⟨firstBounded, laterBounded⟩ := List.forall_mem_cons.1 bounded
    obtain ⟨secondBounded, restBounded⟩ := List.forall_mem_cons.1 laterBounded
    rw [join_of_groups firstGroups second, Result.ok_bind] at returned
    obtain ⟨others, othersJoined, returned⟩ := Result.bind_eq_ok.1 returned
    cases returned
    refine List.forall_mem_cons.2
      ⟨⟨groups_node first second, ?_⟩,
        inductive_step others restGroup othersJoined restBounded⟩
    simp only [Expr.operands_node rfl, List.forall_mem_map,
      List.forall_mem_append, Nat.add_le_add_iff_right]
    exact ⟨firstBounded, secondBounded⟩
  | case2 terms notTwo =>
    intro joined allGroup returned bounded tree member
    cases returned
    exact ⟨allGroup tree member, fun place isPlace =>
      (bounded tree member place isPlace).trans (Nat.le_succ depth)⟩

/-- The depth of the first operand of the first tree. -/
def firstDepth (operation : Operation) (terms : List Expr) : Option Nat :=
  ((terms.head?.map (Expr.operands operation)).bind List.head?).map Prod.snd

/-- A round adds exactly one node above the first operand. -/
theorem joinPairs_firstDepth
    {first second : Expr}
    {rest joined : List Expr}
    {depth : Nat}
    (allGroup : ∀ term ∈ first :: second :: rest, Groups term)
    (isFirst : operation.firstDepth (first :: second :: rest) = some depth)
    (returned : operation.joinPairs (first :: second :: rest) = .ok joined) :
    operation.firstDepth joined = some (depth + 1) := by
  rw [joinPairs, join_of_groups (allGroup first List.mem_cons_self) second,
    Result.ok_bind] at returned
  obtain ⟨others, -, returned⟩ := Result.bind_eq_ok.1 returned
  cases returned
  cases operandsEq : first.operands operation with
  | nil => simp [firstDepth, operandsEq] at isFirst
  | cons place places =>
    simp only [firstDepth, List.head?_cons, Option.map_some, Option.bind_some,
      operandsEq, Option.some.injEq] at isFirst
    simp [firstDepth, Expr.operands_node rfl, operandsEq, isFirst]

/-- There are as many rounds as the number of terms can be halved, rounding
up. -/
theorem joinAll_depth
    {terms : List Expr}
    {depth : Nat}
    (allGroup : ∀ term ∈ terms, Groups term)
    (bounded : ∀ term ∈ terms, ∀ place ∈ term.operands operation,
      place.2 ≤ depth)
    (isFirst : operation.firstDepth terms = some depth)
    (returned : operation.joinAll terms = .ok e) :
    (∀ place ∈ e.operands operation,
      place.2 ≤ depth + Nat.clog 2 terms.length) ∧
      ((e.operands operation).head?).map Prod.snd =
        some (depth + Nat.clog 2 terms.length) := by
  fun_induction joinAll operation terms generalizing depth with
  | case1 => cases returned
  | case2 term =>
    cases returned
    rw [List.length_singleton, Nat.clog_one_right, Nat.add_zero]
    exact ⟨bounded e List.mem_cons_self, isFirst⟩
  | case3 first second rest failure round => cases returned
  | case4 first second rest paired round inductive_step =>
    have pairedGood := joinPairs_depth _ depth paired allGroup round bounded
    have halved :=
      inductive_step (fun tree member => (pairedGood tree member).1)
      (fun tree member => (pairedGood tree member).2)
      (joinPairs_firstDepth allGroup isFirst round) returned
    have rounds : Nat.clog 2 (first :: second :: rest).length =
        Nat.clog 2 paired.length + 1 := by
      rw [Nat.clog_of_two_le one_lt_two (by simp),
        operation.length_of_joinPairs _ _ round]
      rfl
    rw [rounds, ← Nat.add_assoc, Nat.add_right_comm]
    exact halved

/-- Operands of a chain are joined to a tree that has them as its operands. -/
theorem exists_balanced
    {inverse : Option Inverse}
    {terms : List Expr}
    (present : terms ≠ [])
    (allOperands : ∀ term ∈ terms, term.IsChainOperand operation inverse) :
    ∃ e, operation.joinAll terms = .ok e ∧
      openChain operation inverse true e = .ok terms ∧
      (e.operands operation).map Prod.fst = terms ∧
      (∀ place ∈ e.operands operation, place.2 ≤ Nat.clog 2 terms.length) ∧
      ((e.operands operation).head?).map Prod.snd =
        some (Nat.clog 2 terms.length) := by
  have allGroup (term : Expr) (member : term ∈ terms) : Groups term :=
    ⟨(allOperands term member).notConst, (allOperands term member).notForeign⟩
  have lone (term : Expr) (member : term ∈ terms) :
      term.operands operation = [(term, 0)] :=
    Expr.operands_eq_self (allOperands term member).isTerm
  have joins (a b : Expr) (left : Groups a) (_ : Groups b) :
      (operation.join a b).Ends (fun _ => False) Groups :=
    .of_eq_ok (join_of_groups left b) (groups_node a b)
  have ends := joinAll_ends joins present allGroup
  cases joined : operation.joinAll terms with
  | error failure => exact (ends.failed joined).elim
  | ok e =>
    have same : (e.operands operation).map Prod.fst = terms := by
      rw [operands_joinAll allGroup joined]
      calc terms.flatMap (fun term => (term.operands operation).map Prod.fst)
        _ = terms.flatMap ([·]) :=
          List.flatMap_congr fun term member => by rw [lone term member]; rfl
        _ = terms := List.flatMap_singleton' terms
    have isFirst : operation.firstDepth terms = some 0 := by
      obtain ⟨first, rest, rfl⟩ := List.exists_cons_of_ne_nil present
      simp [firstDepth, lone first List.mem_cons_self]
    have depths := joinAll_depth allGroup
      (fun term member => by simp [lone term member]) isFirst joined
    rw [Nat.zero_add] at depths
    refine ⟨e, rfl, ?_, same, depths⟩
    have operandsGood (place : Expr × Nat)
        (isPlace : place ∈ e.operands operation) :
        place.1.IsChainOperand operation inverse :=
      allOperands place.1 (same ▸ List.mem_map_of_mem isPlace)
    rw [Expr.openChain_eq_operands operandsGood, same]

/-! ## Values -/

/-- A tree that is joined from elements with given values, and the value that it
has thereby. A node has the value that the operation gives for its operands; an
integer, joined or not, has itself as its value; any other element may have any
value. -/
inductive Combines (operation : Operation) : List (Expr × Int) -> Expr ->
    Int -> Prop where
  | element {e : Expr} {value : Int} :
    (∀ n, e = .int n -> value = n) -> Combines operation [(e, value)] e value
  | group {first second : List (Expr × Int)} {a b : Expr} {m n : Int} :
    Combines operation first a m -> Combines operation second b n ->
      Combines operation (first ++ second) (.node operation a b)
        (operation.onIntegers m n)
  | evaluated {first second : List (Expr × Int)} {m m' n n' k : Int} :
    Combines operation first (.int m) m' ->
      Combines operation second (.int n) n' ->
      operation.evaluate (.int m) (.int n) = .ok (.int k) ->
        Combines operation (first ++ second) (.int k) k

namespace Combines

variable {elements : List (Expr × Int)} {value : Int}

theorem value_of_int
    {n : Int}
    (combines : operation.Combines elements (.int n) value) :
    value = n := by
  cases combines with
  | element agrees => exact agrees n rfl
  | evaluated => rfl

/-- The value is the one that the tree has for every valuation of trees which
gives the elements their values and reads integers and the nodes of the
operation as usual. -/
theorem eq_valuation
    {valuation : Expr -> Int}
    (exact : ∀ n, valuation (.int n) = n)
    (reads : ∀ a b, valuation (.node operation a b) =
      operation.onIntegers (valuation a) (valuation b))
    (combines : operation.Combines elements e value)
    (agrees : ∀ element ∈ elements, element.2 = valuation element.1) :
    value = valuation e := by
  induction combines with
  | element => exact agrees _ List.mem_cons_self
  | group _ _ firstStep secondStep =>
    obtain ⟨firstAgrees, secondAgrees⟩ := List.forall_mem_append.1 agrees
    rw [firstStep firstAgrees, secondStep secondAgrees, reads]
  | evaluated => exact (exact _).symm

end Combines

end Operation

namespace StandardChain

/-- The commutative operations of arithmetic are those of the standard
chains. -/
theorem of_isCommutative
    {operation : Operation}
    (arithmetic : operation ∈ Operation.arithmetic)
    (commutative : operation.isCommutative = true) :
    ∃ promoted inverse unit, StandardChain operation promoted inverse unit ∧
      Registry.standard.inverse? operation = some inverse := by
  rcases Operation.mem_arithmetic_iff.1 arithmetic with
    rfl | rfl | rfl | rfl | rfl
  · exact ⟨_, _, _, .sum, rfl⟩
  · cases commutative
  · exact ⟨_, _, _, .product, rfl⟩
  · cases commutative
  · cases commutative

section Values

variable {focus promoted : Operation} {inverse : Inverse} {unit : Int}
  (chain : StandardChain focus promoted inverse unit)

include chain

theorem evaluate_int (m n : Int) :
    focus.evaluate (.int m) (.int n) = .ok (.int (focus.onIntegers m n)) := by
  cases chain <;> rfl

theorem onIntegers_assoc (k m n : Int) :
    focus.onIntegers (focus.onIntegers k m) n =
      focus.onIntegers k (focus.onIntegers m n) := by
  cases chain with
  | sum => exact add_assoc k m n
  | product => exact mul_assoc k m n

theorem onIntegers_unit (n : Int) : focus.onIntegers n unit = n := by
  cases chain with
  | sum => exact add_zero n
  | product => exact mul_one n

theorem unit_onIntegers (n : Int) : focus.onIntegers unit n = n := by
  cases chain with
  | sum => exact zero_add n
  | product => exact one_mul n

/-- Where the values are grouped makes no difference. -/
theorem foldr_append (first second : List Int) :
    (first ++ second).foldr focus.onIntegers unit =
      focus.onIntegers (first.foldr focus.onIntegers unit)
        (second.foldr focus.onIntegers unit) := by
  induction first with
  | nil => exact (chain.unit_onIntegers _).symm
  | cons n rest inductive_step =>
    rw [List.cons_append, List.foldr_cons, List.foldr_cons, inductive_step,
      chain.onIntegers_assoc]

/-- The value of a joined tree is determined by the values of its elements. -/
theorem value_of_combines
    {elements : List (Expr × Int)}
    {e : Expr}
    {value : Int}
    (combines : focus.Combines elements e value) :
    value = (elements.map Prod.snd).foldr focus.onIntegers unit := by
  induction combines with
  | element => exact (chain.onIntegers_unit _).symm
  | group _ _ firstStep secondStep =>
    rw [List.map_append, chain.foldr_append, ← firstStep, ← secondStep]
  | evaluated first second evaluated firstStep secondStep =>
    rw [chain.evaluate_int] at evaluated
    cases evaluated
    rw [List.map_append, chain.foldr_append, ← firstStep, ← secondStep,
      first.value_of_int, second.value_of_int]

/-- Joining two trees joins their elements. -/
theorem combines_join
    {first second : List (Expr × Int)}
    {a b e : Expr}
    {m n : Int}
    (leftExact : a.isReal = false)
    (rightExact : b.isReal = false)
    (left : focus.Combines first a m)
    (right : focus.Combines second b n)
    (joined : focus.join a b = .ok e) :
    e.isReal = false ∧ ∃ value, focus.Combines (first ++ second) e value := by
  rcases Operation.join_cases leftExact rightExact joined with
    rfl | ⟨k, l, rfl, rfl, evaluated⟩
  · exact ⟨rfl, _, left.group right⟩
  · rw [chain.evaluate_int] at evaluated
    cases evaluated
    exact ⟨rfl, _, left.evaluated right (chain.evaluate_int k l)⟩

end Values
end StandardChain

namespace Operation

/-- The tree is no double and is joined from the elements. -/
def Carries (operation : Operation) (elements : List (Expr × Int)) (e : Expr) :
    Prop :=
  e.isReal = false ∧ ∃ value, operation.Combines elements e value

end Operation

namespace StandardChain

variable {focus promoted : Operation} {inverse : Inverse} {unit : Int}
  (chain : StandardChain focus promoted inverse unit)

include chain

/-- A round keeps the elements in their order. -/
theorem carries_joinPairs
    (terms : List Expr) :
    ∀ joined parts, focus.joinPairs terms = .ok joined ->
      List.Forall₂ focus.Carries parts terms ->
        ∃ parts', parts'.flatten = parts.flatten ∧
          List.Forall₂ focus.Carries parts' joined := by
  fun_induction Operation.joinPairs focus terms with
  | case1 a b rest inductive_step =>
    intro joined parts returned carried
    obtain ⟨e, headJoined, returned⟩ := Result.bind_eq_ok.1 returned
    obtain ⟨others, othersJoined, returned⟩ := Result.bind_eq_ok.1 returned
    cases returned
    obtain _ | ⟨⟨leftExact, m, left⟩, _ | ⟨⟨rightExact, n, right⟩, later⟩⟩ :=
      carried
    obtain ⟨parts', same, othersCarried⟩ :=
      inductive_step others _ othersJoined later
    refine ⟨_ :: parts', ?_,
      .cons (chain.combines_join leftExact rightExact left right headJoined)
        othersCarried⟩
    simp only [List.flatten_cons, same, List.append_assoc]
  | case2 terms notTwo =>
    intro joined parts returned carried
    cases returned
    exact ⟨parts, rfl, carried⟩

/-- All terms are carried by the tree they are joined into. -/
theorem carries_joinAll
    {terms : List Expr}
    {parts : List (List (Expr × Int))}
    {e : Expr}
    (joined : focus.joinAll terms = .ok e)
    (carried : List.Forall₂ focus.Carries parts terms) :
    focus.Carries parts.flatten e := by
  fun_induction Operation.joinAll focus terms generalizing parts with
  | case1 => cases joined
  | case2 term =>
    cases joined
    obtain _ | ⟨carried, _ | _⟩ := carried
    simpa using carried
  | case3 a b rest failure round => cases joined
  | case4 a b rest paired round inductive_step =>
    obtain ⟨parts', same, carried'⟩ :=
      chain.carries_joinPairs _ paired parts round carried
    rw [← same]
    exact inductive_step joined carried'

/-- Terms with values of their own are joined to a tree with the value that
these give together. -/
theorem combines_joinAll
    {elements : List (Expr × Int)}
    {e : Expr}
    (joined : focus.joinAll (elements.map Prod.fst) = .ok e)
    (exact : ∀ element ∈ elements, element.1.isReal = false)
    (agrees : ∀ element ∈ elements, ∀ n, element.1 = .int n -> element.2 = n) :
    focus.Combines elements e
      ((elements.map Prod.snd).foldr focus.onIntegers unit) := by
  have starts : List.Forall₂ focus.Carries (elements.map ([·]))
      (elements.map Prod.fst) := by
    rw [List.forall₂_map_left_iff, List.forall₂_map_right_iff,
      List.forall₂_same]
    exact fun element member =>
      ⟨exact element member, element.2, .element (agrees element member)⟩
  obtain ⟨-, value, combines⟩ := chain.carries_joinAll joined starts
  rw [← List.flatMap_def, List.flatMap_singleton'] at combines
  rwa [chain.value_of_combines combines] at combines

/-- Exact trees can be joined. -/
theorem join_ends
    (a b : Expr)
    (left : a.isReal = false ∧ ∀ object, a ≠ .foreign object)
    (right : b.isReal = false ∧ ∀ object, b ≠ .foreign object) :
    (focus.join a b).Ends (fun _ => False)
      fun e => e.isReal = false ∧ ∀ object, e ≠ .foreign object := by
  unfold Operation.join
  split
  · exact left.2 _ rfl
  · exact right.2 _ rfl
  · next x y =>
    cases x with
    | real x => cases left.1
    | int m =>
      cases y with
      | real y => cases right.1
      | int n => exact .of_eq_ok (chain.evaluate_int m n) ⟨rfl, by simp⟩
  · exact ⟨rfl, by simp⟩

/-- Exact terms are joined to a tree whose value is what the values of the terms
give together, for values of the terms at their places and for valuations of
trees. -/
theorem exists_valued
    {terms : List Expr}
    (present : terms ≠ [])
    (exact : ∀ term ∈ terms, term.isReal = false ∧ ∀ object,
      term ≠ .foreign object) :
    ∃ e, focus.joinAll terms = .ok e ∧
      (∀ elements : List (Expr × Int), elements.map Prod.fst = terms ->
        (∀ element ∈ elements, ∀ n, element.1 = .int n -> element.2 = n) ->
          ∀ value, focus.Combines elements e value ↔
            value = (elements.map Prod.snd).foldr focus.onIntegers unit) ∧
      ∀ valuation : Expr -> Int, (∀ n, valuation (.int n) = n) ->
        (∀ a b, valuation (.node focus a b) =
          focus.onIntegers (valuation a) (valuation b)) ->
          valuation e = (terms.map valuation).foldr focus.onIntegers unit := by
  have ends := Operation.joinAll_ends chain.join_ends present exact
  cases joined : focus.joinAll terms with
  | error failure => exact (ends.failed joined).elim
  | ok e =>
    refine ⟨e, rfl, ?_, ?_⟩
    · rintro elements rfl agrees value
      refine ⟨chain.value_of_combines, ?_⟩
      rintro rfl
      exact chain.combines_joinAll joined
        (fun element member =>
          (exact element.1 (List.mem_map_of_mem member)).1) agrees
    · intro valuation isExact reads
      let elements := terms.map fun term => (term, valuation term)
      have areTerms : elements.map Prod.fst = terms := by
        simp [elements, Function.comp_def]
      have areValues : elements.map Prod.snd = terms.map valuation := by
        simp [elements, Function.comp_def]
      have combines : focus.Combines elements e _ :=
        chain.combines_joinAll (areTerms ▸ joined)
        (List.forall_mem_map.2 fun term member => (exact term member).1)
        (List.forall_mem_map.2 fun term _ n isInt =>
          (congrArg valuation isInt).trans (isExact n))
      rw [← areValues]
      exact (combines.eq_valuation isExact reads
        (List.forall_mem_map.2 fun _ _ => rfl)).symm

end StandardChain

/-- Joining loses, duplicates and reorders nothing and is balanced.  For a
commutative operation of arithmetic, let some terms be variables and nodes, and
none a node of the operation or of its inverse.  They are joined to a tree whose
terms are the given ones in their order, each at a depth of at most the binary
logarithm of their number, rounded up, and the first at exactly this depth.

Terms that are no doubles, integers included, are joined to a tree whose value
is the sum, or product, of theirs.  This holds if each term at its place is
given any value of its own, and it holds for every valuation of trees that reads
integers and the nodes of the operation as usual. -/
theorem joinAll_keeps_terms :
    (∀ operation ∈ Operation.arithmetic, operation.isCommutative = true ->
      ∀ terms, terms ≠ [] ->
        (∀ term ∈ terms,
          term.IsChainOperand operation
            (Registry.standard.inverse? operation)) ->
        ∃ e, operation.joinAll terms = .ok e ∧
          (∀ memory,
            (chainTerms .standard operation e).outcome memory =
              (.ok terms, memory)) ∧
          (e.operands operation).map Prod.fst = terms ∧
          (∀ place ∈ e.operands operation, place.2 ≤ Nat.clog 2 terms.length) ∧
          ((e.operands operation).head?).map Prod.snd =
            some (Nat.clog 2 terms.length)) ∧
    ∀ terms, terms ≠ [] ->
      (∀ term ∈ terms, term.isReal = false ∧ ∀ object,
        term ≠ .foreign object) ->
      (∃ e, Operation.sum.joinAll terms = .ok e ∧
        (∀ elements : List (Expr × Int), elements.map Prod.fst = terms ->
          (∀ element ∈ elements, ∀ n, element.1 = .int n -> element.2 = n) ->
            ∀ value, Operation.sum.Combines elements e value ↔
              value = (elements.map Prod.snd).sum) ∧
        ∀ valuation : Expr -> Int, (∀ n, valuation (.int n) = n) ->
          (∀ a b, valuation (.node .sum a b) = valuation a + valuation b) ->
            valuation e = (terms.map valuation).sum) ∧
      ∃ e, Operation.product.joinAll terms = .ok e ∧
        (∀ elements : List (Expr × Int), elements.map Prod.fst = terms ->
          (∀ element ∈ elements, ∀ n, element.1 = .int n -> element.2 = n) ->
            ∀ value, Operation.product.Combines elements e value ↔
              value = (elements.map Prod.snd).prod) ∧
        ∀ valuation : Expr -> Int, (∀ n, valuation (.int n) = n) ->
          (∀ a b, valuation (.node .product a b) = valuation a * valuation b) ->
            valuation e = (terms.map valuation).prod := by
  refine ⟨?_, ?_⟩
  · intro operation arithmetic commutative terms present allOperands
    obtain ⟨promoted, inverse, unit, chain, registered⟩ :=
      StandardChain.of_isCommutative arithmetic commutative
    rw [registered] at allOperands
    obtain ⟨e, joined, opened, balanced⟩ :=
      operation.exists_balanced present allOperands
    exact ⟨e, joined, chain.outcome_chainTerms opened, balanced⟩
  · intro terms present exact
    exact ⟨StandardChain.sum.exists_valued present exact,
      StandardChain.product.exists_valued present exact⟩

/-- Three terms are joined to `x + y + z`, where `z` is carried over and `x` is
at depth 2.  The product of `x`, 2 and 3 is 30 where `x` is 5. -/
theorem joinAll_keeps_terms_three :
    (∃ e, Operation.sum.joinAll [.var "x", .var "y", .var "z"] = .ok e ∧
      (∀ memory, (chainTerms .standard .sum e).outcome memory =
        (.ok [.var "x", .var "y", .var "z"], memory)) ∧
      ((e.operands .sum).head?).map Prod.snd = some 2) ∧
    ∃ e, Operation.product.joinAll [.var "x", .int 2, .int 3] = .ok e ∧
      Operation.product.Combines [(.var "x", 5), (.int 2, 2), (.int 3, 3)] e
        30 := by
  constructor
  · obtain ⟨e, joined, opened, -, -, isFirst⟩ := joinAll_keeps_terms.1 .sum
      (by simp [Operation.arithmetic]) rfl [.var "x", .var "y", .var "z"]
        (by simp) (by
        simp only [List.forall_mem_cons, List.not_mem_nil, false_implies,
          implies_true, and_true]
        refine ⟨?_, ?_, ?_⟩ <;>
          exact ⟨rfl, rfl, rfl, by simp, by simp [Expr.IsTerm]⟩)
    exact ⟨e, joined, opened, isFirst⟩
  · obtain ⟨-, e, joined, valued, -⟩ := joinAll_keeps_terms.2
      [.var "x", .int 2, .int 3] (by simp) (by simp [Expr.isReal])
    exact ⟨e, joined,
      (valued [(.var "x", 5), (.int 2, 2), (.int 3, 3)] rfl (by simp) 30).2 rfl⟩

end Symbolic
