import Mathlib.Algebra.BigOperators.Group.Finset.Basic
import Mathlib.Algebra.Order.BigOperators.Group.Finset
import Mathlib.Data.List.GetD
import Symbolic.Proofs.ExactSearch
import Symbolic.Proofs.TreeClass

/-!
# The distance of fingerprints

Fingerprints are compared as if they went on with zeros for ever: their distance
is the sum of the differences at all positions.  So it is symmetric and
satisfies the triangle inequality, but it does not tell fingerprints apart that
differ only by zeros at their ends.  A pass that leaves the distance at zero
counts as one that changes nothing; these are the changes it can miss.
-/

namespace Symbolic
namespace Fingerprint

/-- The token at a position; behind the last token there are zeros. -/
def tokenAt (key : Fingerprint) (position : Nat) : Int :=
  key.getD position 0

/-- The fingerprints are the same apart from zeros at their ends. -/
def SameUpToZeros (left right : Fingerprint) : Prop :=
  ∃ m n, left ++ List.replicate m 0 = right ++ List.replicate n 0

theorem tokenAt_of_length_le
    {key : Fingerprint}
    {position : Nat}
    (behind : key.length ≤ position) :
    key.tokenAt position = 0 :=
  List.getD_eq_default key 0 behind

theorem tokenAt_append_replicate
    (key : Fingerprint)
    (zeros position : Nat) :
    tokenAt (key ++ List.replicate zeros 0) position =
      key.tokenAt position := by
  by_cases inside : position < key.length
  · exact List.getD_append key _ 0 position inside
  · rw [tokenAt_of_length_le (Nat.le_of_not_lt inside), tokenAt,
      List.getD_append_right key _ 0 position (Nat.le_of_not_lt inside)]
    simp [List.getD_eq_getElem?_getD, List.getElem?_replicate]
    split <;> rfl

theorem weight_eq_sum
    (key : Fingerprint)
    (positions : Nat)
    (enough : key.length ≤ positions) :
    key.weight = ∑ i ∈ Finset.range positions, (key.tokenAt i).natAbs := by
  induction key generalizing positions with
  | nil => simp [weight, tokenAt]
  | cons token rest inductive_step =>
    obtain ⟨others, rfl⟩ : ∃ others, positions = others + 1 :=
      ⟨positions - 1, by simp only [List.length_cons] at enough; omega⟩
    have restEnough : rest.length ≤ others := by simpa using enough
    rw [Finset.sum_range_succ', weight, inductive_step others restEnough,
      Nat.add_comm]
    rfl

/-- The distance is the sum of the differences at enough positions. -/
theorem distance_eq_sum
    (left right : Fingerprint)
    (positions : Nat)
    (leftEnough : left.length ≤ positions)
    (rightEnough : right.length ≤ positions) :
    left.distance right =
      ∑ i ∈ Finset.range positions,
        (left.tokenAt i - right.tokenAt i).natAbs := by
  induction left generalizing right positions with
  | nil =>
    rw [distance_nil_left, weight_eq_sum right positions rightEnough]
    exact Finset.sum_congr rfl fun i _ => by simp [tokenAt]
  | cons a left inductive_step =>
    cases right with
    | nil =>
      rw [distance_nil_right, weight_eq_sum (a :: left) positions leftEnough]
      exact Finset.sum_congr rfl fun i _ => by simp [tokenAt]
    | cons b right =>
      obtain ⟨others, rfl⟩ : ∃ others, positions = others + 1 :=
        ⟨positions - 1, by simp only [List.length_cons] at leftEnough; omega⟩
      have step := inductive_step right others (by simpa using leftEnough)
        (by simpa using rightEnough)
      rw [Finset.sum_range_succ', distance_cons, step, Nat.add_comm]
      rfl

theorem distance_comm (left right : Fingerprint) :
    left.distance right = right.distance left := by
  rw [distance_eq_sum left right (max left.length right.length)
    (le_max_left _ _)
      (le_max_right _ _),
    distance_eq_sum right left (max left.length right.length) (le_max_right _ _)
      (le_max_left _ _)]
  exact Finset.sum_congr rfl fun i _ => by omega

/-- The three sums are taken over positions that are enough for all three
fingerprints. -/
theorem distance_triangle (a b c : Fingerprint) :
    a.distance c ≤ a.distance b + b.distance c := by
  let positions := max a.length (max b.length c.length)
  have aEnough : a.length ≤ positions := le_max_left _ _
  have bEnough : b.length ≤ positions :=
    (le_max_left _ _).trans (le_max_right _ _)
  have cEnough : c.length ≤ positions :=
    (le_max_right _ _).trans (le_max_right _ _)
  rw [distance_eq_sum a c positions aEnough cEnough,
    distance_eq_sum a b positions aEnough bEnough,
    distance_eq_sum b c positions bEnough cEnough, ← Finset.sum_add_distrib]
  refine Finset.sum_le_sum fun i _ => ?_
  have split : a.tokenAt i - c.tokenAt i =
      (a.tokenAt i - b.tokenAt i) + (b.tokenAt i - c.tokenAt i) := by omega
  rw [split]
  exact Int.natAbs_add_le _ _

/-- Fingerprints are the same up to zeros at the end if they have the same token
at every place, where zeros fill up both. -/
theorem sameUpToZeros_iff_tokenAt (left right : Fingerprint) :
    SameUpToZeros left right ↔ ∀ i, left.tokenAt i = right.tokenAt i := by
  constructor
  · rintro ⟨m, n, same⟩ i
    rw [← tokenAt_append_replicate left m i, same, tokenAt_append_replicate]
  · intro same
    refine ⟨right.length - left.length, left.length - right.length, ?_⟩
    have sameLength :
        (left ++ List.replicate (right.length - left.length) (0 : Int)).length =
        (right ++ List.replicate (left.length - right.length)
          (0 : Int)).length := by
      simp only [List.length_append, List.length_replicate]
      omega
    refine List.ext_getElem sameLength fun i inLeft inRight => ?_
    have atLeft := tokenAt_append_replicate left (right.length - left.length) i
    have atRight :=
      tokenAt_append_replicate right (left.length - right.length) i
    rw [tokenAt, List.getD_eq_getElem _ _ inLeft] at atLeft
    rw [tokenAt, List.getD_eq_getElem _ _ inRight] at atRight
    rw [atLeft, atRight, same i]

/-- Fingerprints without distance differ at most by zeros at their ends. -/
theorem distance_eq_zero_iff (left right : Fingerprint) :
    left.distance right = 0 ↔ SameUpToZeros left right := by
  rw [sameUpToZeros_iff_tokenAt,
    distance_eq_sum left right (max left.length right.length) (le_max_left _ _)
      (le_max_right _ _), Finset.sum_eq_zero_iff]
  constructor
  · intro none i
    by_cases inside : i < max left.length right.length
    · have := none i (Finset.mem_range.2 inside)
      omega
    · rw [tokenAt_of_length_le (by omega), tokenAt_of_length_le (by omega)]
  · intro same i _
    rw [same i, sub_self]
    rfl

end Fingerprint

/-- The end of a pass that leads to a node asks for another pass exactly when
the fingerprint of the node is at a distance from the one that the pass started
with. -/
theorem Pass.finish_keeps_isChanged
    (settings : Settings)
    (recursion : Recursion)
    (key : Fingerprint)
    (source : Expr)
    (operation : Operation)
    (left right : Expr) :
    (Pass.finish settings recursion key source operation left right).Keeps
      (fun _ => True) fun pass => pass.result.isCompound = true ->
        (pass.isChanged = true ↔ Fingerprint.distance pass.result.tokens key ≠
          0) := by
  have anything {α : Type} (work : Work α) :
      work.Keeps (fun _ => True) fun _ => True :=
    fun _ _ => ⟨trivial, fun _ _ => trivial⟩
  unfold Pass.finish
  refine .bind (anything _) fun left' _ => .bind (anything _) fun right' _ => ?_
  split
  · refine .bind (.lift fun _ evaluated => evaluated) fun value evaluated =>
      .pure ?_
    have isConst := Operation.isConst_of_evaluate evaluated
    intro isCompound
    cases value <;> cases isConst
    cases isCompound
  · refine .bind (anything _) fun _ _ => .bind (anything _) fun _ _ => ?_
    refine .bind (anything _) fun result _ => ?_
    split
    · refine .bind (.lift fun _ hashed => hashed) fun resultKey hashed => .pure
        fun _ => ?_
      rw [Expr.eq_tokens_of_fingerprint hashed]
      simp
    · next noCompound =>
        exact .pure fun isCompound => absurd isCompound noCompound

/-- The distance of two fingerprints is the sum of their differences at all
positions, with zeros behind their ends.  So it is not negative, symmetric, and
satisfies the triangle inequality, and it is zero exactly for fingerprints that
are the same apart from zeros at their ends.  A pass that leads to a node passes
for the last one only when the fingerprint is the same in this sense. -/
theorem Fingerprint.distance_eq_padded_sum (a b c : Fingerprint) :
    a.distance b =
        ∑ i ∈ Finset.range (max a.length b.length),
          (a.tokenAt i - b.tokenAt i).natAbs ∧
      (0 : Int) ≤ a.distance b ∧
      a.distance b = b.distance a ∧
      a.distance c ≤ a.distance b + b.distance c ∧
      (a.distance b = 0 ↔ SameUpToZeros a b) ∧
      ∀ settings recursion key source operation left right memory pass,
        ((Pass.finish settings recursion key source operation left
          right).outcome memory).1 =
            .ok pass ->
          pass.result.isCompound = true ->
            (pass.isChanged = false ↔
              SameUpToZeros pass.result.tokens key) := by
  refine ⟨distance_eq_sum a b _ (le_max_left _ _) (le_max_right _ _),
    Int.natCast_nonneg _,
    distance_comm a b, distance_triangle a b c, distance_eq_zero_iff a b, ?_⟩
  intro settings recursion key source operation left right memory pass finished
    isCompound
  have changed :=
    (Pass.finish_keeps_isChanged settings recursion key source operation
    left right memory trivial).2 pass finished isCompound
  rw [← Bool.not_eq_true, changed, not_not, distance_eq_zero_iff]

/-- A zero at the end goes unnoticed, and the way from `x` to `y` by `x + 0` is
no shorter than the direct one. -/
theorem Fingerprint.distance_eq_padded_sum_trailingZero :
    SameUpToZeros [120, 0] [120] ∧
      distance [120] [121] ≤ distance [120] [1, 120, 0] + distance [1, 120, 0]
        [121] :=
  ⟨(distance_eq_padded_sum [120, 0] [120] []).2.2.2.2.1.1 rfl,
    (distance_eq_padded_sum [120] [1, 120, 0] [121]).2.2.2.1⟩

end Symbolic
