import Symbolic.Chain.Terms
import Symbolic.Expr.Fingerprint
import Symbolic.Proofs.Equality

/-!
# Fingerprints and equality with a stack

Trees can be encoded and compared without recursion.  The trees that are still
to be looked at lie on a stack; the topmost one is taken away and, if it is a
node, its operands are put back, the left one on top.  Each pop makes the stack
lighter, so the loops end, and they find what the recursions find, foreign
objects included.
-/

namespace Symbolic
namespace Expr

/-- Unwrapping makes no tree heavier. -/
theorem weight_unwrap_le (e : Expr) : e.unwrap.weight ≤ e.weight := by
  induction e with
  | wrap inner inductive_step =>
    simp only [unwrap_wrap, weight]
    omega
  | _ => exact Nat.le_refl _

/-! ## Fingerprints -/

/-- The weight of all trees on a stack. -/
def stackWeight : List Expr -> Nat
  | [] => 0
  | e :: rest => e.weight + stackWeight rest

/-- Encode the trees on a stack behind the tokens that were found before. -/
def fingerprintLoop : (stack : List Expr) -> (found : Fingerprint) ->
    Result Fingerprint
  | [], found => .ok found
  | blank :: rest, found => fingerprintLoop rest found
  | const value :: rest, found => fingerprintLoop rest (found ++ [value.token])
  | var name :: rest, found =>
    fingerprintLoop rest (found ++ name.toList.map fun c => (c.toNat : Int))
  | wrap inner :: rest, found => fingerprintLoop (inner :: rest) found
  | node operation left right :: rest, found =>
    fingerprintLoop (left :: right :: rest) (found ++ [operation.id])
  | foreign object :: _, _ => .error (.unknownOperand .fingerprinting object)
termination_by stack => stackWeight stack
decreasing_by
  all_goals
    simp only [stackWeight, weight]
    omega

theorem fingerprint_node
    (operation : Operation)
    (left right : Expr) :
    (node operation left right).fingerprint = (do
      let before ← left.fingerprint
      let behind ← right.fingerprint
      return operation.id :: (before ++ behind)) := by
  unfold fingerprint
  rw [foreign?]
  cases left.foreign? with
  | some object => rfl
  | none => cases right.foreign? <;> rfl

/-- The topmost tree is replaced by its tokens, or ends the loop. -/
theorem fingerprintLoop_cons
    (e : Expr)
    (rest : List Expr)
    (found : Fingerprint) :
    fingerprintLoop (e :: rest) found =
      (e.fingerprint >>= fun tokens =>
        fingerprintLoop rest (found ++ tokens)) := by
  induction e generalizing rest found with
  | blank => simp [fingerprintLoop, fingerprint, foreign?, tokens]
  | const value => simp [fingerprintLoop, fingerprint, foreign?]
  | var name => simp [fingerprintLoop, fingerprint, foreign?, tokens]
  | foreign object => simp [fingerprintLoop, fingerprint, foreign?]
  | wrap inner inductive_step =>
    rw [fingerprintLoop, inductive_step]
    rfl
  | node operation left right leftStep rightStep =>
    rw [fingerprintLoop, leftStep, fingerprint_node]
    cases left.fingerprint with
    | error failure => rfl
    | ok before =>
      rw [Result.ok_bind, rightStep]
      cases right.fingerprint with
      | error failure => rfl
      | ok behind => simp

/-- The loop finds the fingerprint of a tree. -/
theorem fingerprintLoop_eq_fingerprint (e : Expr) :
    fingerprintLoop [e] [] = e.fingerprint := by
  rw [fingerprintLoop_cons]
  cases e.fingerprint with
  | error failure => rfl
  | ok tokens => simp [fingerprintLoop]

/-! ## Equality -/

/-- The weight of the left trees on a stack of pairs. -/
def pairsWeight : List (Expr × Expr) -> Nat
  | [] => 0
  | (a, _) :: rest => a.weight + pairsWeight rest

/-- The pairs that are put back add their weight. -/
theorem pairsWeight_append (pairs rest : List (Expr × Expr)) :
    pairsWeight (pairs ++ rest) = pairsWeight pairs + pairsWeight rest := by
  induction pairs with
  | nil => exact (Nat.zero_add _).symm
  | cons pair pairs inductive_step =>
    rw [List.cons_append, pairsWeight, pairsWeight, inductive_step,
      Nat.add_assoc]

/-- Compare two trees at their roots, both without wrappers around them.  If the
roots agree, the result is the pairs that are still to be compared. -/
def compareRoots : Expr -> Expr -> Result (Option (List (Expr × Expr)))
  | node operation left right, node operation' left' right' =>
    .ok (if operation.id = operation'.id then some
      [(left, left'), (right, right')] else none)
  | foreign object, _ => .error (.unknownOperand .comparison object)
  | _, foreign object => .error (.unknownOperand .comparison object)
  | const value, const value' =>
    .ok (if value.same value' then some [] else none)
  | var name, var name' => .ok (if name = name' then some [] else none)
  | blank, blank => .ok (some [])
  | _, _ => .ok none

/-- The trees that are put back are lighter than the one that was taken. -/
theorem pairsWeight_of_compareRoots
    {a b : Expr}
    {pairs : List (Expr × Expr)}
    (compared : compareRoots a b = .ok (some pairs)) :
    pairsWeight pairs < a.weight := by
  unfold compareRoots at compared
  split at compared
  all_goals
    simp only [Except.ok.injEq, Option.ite_none_right_eq_some,
      Option.some.injEq, reduceCtorEq] at compared
  · obtain ⟨-, rfl⟩ := compared
    simp only [pairsWeight, weight]
    omega
  · obtain ⟨-, rfl⟩ := compared
    exact weight_pos _
  · obtain ⟨-, rfl⟩ := compared
    exact weight_pos _
  · subst compared
    exact weight_pos _

/-- Compare the pairs on a stack until two roots differ. -/
def equalLoop : (stack : List (Expr × Expr)) -> Result Bool
  | [] => .ok true
  | (a, b) :: rest =>
    match _compared : compareRoots a.unwrap b.unwrap with
    | .error failure => .error failure
    | .ok none => .ok false
    | .ok (some pairs) => equalLoop (pairs ++ rest)
termination_by stack => pairsWeight stack
decreasing_by
  have lighter := pairsWeight_of_compareRoots _compared
  have unwrapped := weight_unwrap_le a
  rw [pairsWeight_append, pairsWeight]
  omega

theorem equalLoop_cons
    (a b : Expr)
    (rest : List (Expr × Expr)) :
    equalLoop ((a, b) :: rest) =
      match compareRoots a.unwrap b.unwrap with
      | .error failure => .error failure
      | .ok none => .ok false
      | .ok (some pairs) => equalLoop (pairs ++ rest) := by
  rw [equalLoop]
  split <;> simp_all

/-- The topmost pair is taken away if its trees are equal, and ends the loop
otherwise. -/
theorem equalLoop_cons_eq_equal
    (a b : Expr)
    (rest : List (Expr × Expr)) :
    equalLoop ((a, b) :: rest) =
      (a.equal b >>= fun isEqual =>
        if isEqual then equalLoop rest else .ok false) := by
  induction a generalizing b rest with
  | wrap inner inductive_step =>
    rw [equal_wrap, ← inductive_step, equalLoop_cons, equalLoop_cons,
      unwrap_wrap]
  | foreign object =>
    rw [equalLoop_cons]
    cases b.unwrap <;> rfl
  | const value =>
    rw [equalLoop_cons, equal_const]
    simp only [unwrap]
    cases b.unwrap with
    | const value' =>
      cases same : value.same value' <;> simp [compareRoots, same]
    | _ => rfl
  | var name =>
    rw [equalLoop_cons, equal_var]
    simp only [unwrap]
    cases b.unwrap with
    | var name' => by_cases same : name = name' <;> simp [compareRoots, same]
    | _ => rfl
  | blank =>
    rw [equalLoop_cons, equal_blank]
    simp only [unwrap]
    cases b.unwrap <;> rfl
  | node operation left right leftStep rightStep =>
    rw [equalLoop_cons, equal_node]
    simp only [unwrap]
    cases b.unwrap with
    | node operation' left' right' =>
      by_cases sameId : operation.id = operation'.id
      · simp only [compareRoots, if_pos sameId, List.cons_append,
          List.nil_append, leftStep, rightStep]
        cases left.equal left' with
        | error failure => rfl
        | ok isEqual => cases isEqual <;> rfl
      · simp [compareRoots, sameId]
    | _ => rfl

/-- The loop decides equality, and refuses the foreign object that equality
refuses. -/
theorem equalLoop_eq_equal (a b : Expr) :
    equalLoop [(a, b)] = a.equal b := by
  rw [equalLoop_cons_eq_equal]
  cases a.equal b with
  | error failure => rfl
  | ok isEqual => cases isEqual <;> simp [equalLoop]

end Expr
end Symbolic
