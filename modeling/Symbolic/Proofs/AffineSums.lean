import Symbolic.Proofs.KnownRuns
import Symbolic.Proofs.RepeatedTerms

/-!
# Sums of one variable and integers

Every sum of one variable and integers, however it is nested, is simplified to
one form: the integer, if it is not zero, plus the multiple of the variable, if
it occurs more than once. Every product of one variable is simplified to a
power.

A run over such a sum looks as follows.  The first pass collects the occurrences
of the variable to `x*n`.  Beside an integer this product is simplified on its
own, otherwise it is what the next pass is about; both times the number goes to
the front.  The trees that are met begin with different operations, and so do
their fingerprints.  Whatever the name of the variable and the number are, a
search for a product thus never meets what is remembered for a sum, and all that
is remembered for products has the same result.
-/

namespace Symbolic

open Work (Returns)

/-! ## The trees -/

/-- Sums of integers with the given total and of a number of occurrences of one
variable. -/
inductive IsAffineSum (name : String) : Int -> Nat -> Expr -> Prop where
  | int (n : Int) : IsAffineSum name n 0 (.int n)
  | var : IsAffineSum name 0 1 (.var name)
  | sum {constant constant' : Int} {count count' : Nat} {left right : Expr} :
    IsAffineSum name constant count left ->
      IsAffineSum name constant' count' right ->
      IsAffineSum name (constant + constant') (count + count')
        (.node .sum left right)

/-- Products of a number of occurrences of one variable. -/
inductive IsVariableProduct (name : String) : Nat -> Expr -> Prop where
  | var : IsVariableProduct name 1 (.var name)
  | product {count count' : Nat} {left right : Expr} :
    IsVariableProduct name count left -> IsVariableProduct name count' right ->
      IsVariableProduct name (count + count') (.node .product left right)

namespace Expr

/-- A variable with the number of its occurrences, as they are collected. -/
def collected (name : String) (count : Nat) : Expr :=
  .node .product (.var name) (.int count)

/-- A number times a variable. -/
def multiple (name : String) (count : Nat) : Expr :=
  .node .product (.int count) (.var name)

/-- What the occurrences of a variable are collected to. -/
def gathered (name : String) (count : Nat) : Expr :=
  if count = 1 then .var name else collected name count

/-- The variable, or a number times the variable if it occurs more than once. -/
def occurrences (name : String) (count : Nat) : Expr :=
  if count = 1 then .var name else multiple name count

/-- The form of a sum of integers and occurrences of one variable. -/
def affine (name : String) (constant : Int) (count : Nat) : Expr :=
  if constant = 0 then occurrences name count
  else .node .sum (.int constant) (occurrences name count)

variable (name : String) {count : Nat}

/-- Two or more occurrences are gathered into a collected term. -/
theorem gathered_of_several (several : 2 ≤ count) :
    gathered name count = collected name count :=
  if_neg (by omega)

/-- Two or more occurrences are written as a multiple. -/
theorem occurrences_of_several (several : 2 ≤ count) :
    occurrences name count = multiple name count :=
  if_neg (by omega)

theorem foreign?_occurrences (count : Nat) :
    (occurrences name count).foreign? = none := by
  unfold occurrences
  split <;> rfl

theorem foreign?_affine (constant : Int) (count : Nat) :
    (affine name constant count).foreign? = none := by
  unfold affine
  split
  · exact foreign?_occurrences name count
  · exact foreign?_occurrences name count

theorem isConst_gathered (count : Nat) :
    (gathered name count).isConst = false := by
  unfold gathered
  split <;> rfl

theorem isConst_occurrences (count : Nat) :
    (occurrences name count).isConst = false := by
  unfold occurrences
  split <;> rfl

theorem hasOnlyConstants_occurrences (count : Nat) :
    (occurrences name count).hasOnlyConstants = false := by
  unfold occurrences
  split <;> rfl

/-- What is gathered is a single term of a sum. -/
theorem openChain_occurrences (count : Nat) :
    openChain .sum (some .subtraction) true (occurrences name count) =
      .ok [occurrences name count] := by
  unfold occurrences
  split
  · exact openChain_var name
  · exact openChain_other (by decide) (by rintro _ ⟨⟩; decide)

/-- There is one occurrence, and it is the variable, or there are several. -/
theorem occurrences_eq_or (present : 1 ≤ count) :
    (occurrences name count = .var name ∧ gathered name count = .var name) ∨
      (2 ≤ count ∧ occurrences name count = multiple name count ∧
        gathered name count = collected name count) := by
  obtain rfl | several := present.eq_or_lt
  · exact .inl ⟨rfl, rfl⟩
  · exact .inr ⟨several, occurrences_of_several name several,
      gathered_of_several name several⟩

end Expr

namespace IsAffineSum

variable {name : String} {constant : Int} {count : Nat} {e : Expr}

/-- An affine sum contains no foreign object. -/
theorem foreign?_eq_none (isSum : IsAffineSum name constant count e) :
    e.foreign? = none := by
  induction isSum with
  | sum _ _ leftStep rightStep =>
    exact Option.or_eq_none_iff.2 ⟨leftStep, rightStep⟩
  | _ => rfl

/-- The terms of such a sum are integers and copies of the variable.  A node has
two of them at least. -/
theorem exists_terms (isSum : IsAffineSum name constant count e) :
    ∃ terms ints, openChain .sum (some .subtraction) true e = .ok terms ∧
      Splits terms ints (.replicate count (.var name)) ∧ ints.sum = constant ∧
        1 ≤ ints.length + count ∧
          (e.isCompound = true -> 2 ≤ ints.length + count) := by
  induction isSum with
  | int n =>
    exact ⟨_, [n], openChain_const _, .int n .nil, by simp, by simp,
      by rintro ⟨⟩⟩
  | var =>
    exact ⟨_, [], openChain_var name, .other rfl .nil, rfl, by simp,
      by rintro ⟨⟩⟩
  | sum _ _ leftStep rightStep =>
    obtain ⟨first, ints, firstOpened, splits, total, present, -⟩ := leftStep
    obtain ⟨second, ints', secondOpened, splits', total', present', -⟩ :=
      rightStep
    refine ⟨first ++ second, ints ++ ints', ?_, ?_, ?_, ?_⟩
    · rw [openChain_focus rfl, firstOpened, secondOpened]
      rfl
    · rw [List.replicate_add]
      exact splits.append splits'
    · rw [List.sum_append, total, total']
    · rw [List.length_append]
      omega

end IsAffineSum

namespace IsVariableProduct

variable {name : String} {count : Nat} {e : Expr}

/-- Nor does a product of variables. -/
theorem foreign?_eq_none (isProduct : IsVariableProduct name count e) :
    e.foreign? = none := by
  induction isProduct with
  | var => rfl
  | product _ _ leftStep rightStep =>
    exact Option.or_eq_none_iff.2 ⟨leftStep, rightStep⟩

/-- The factors of such a product are copies of the variable. -/
theorem exists_factors (isProduct : IsVariableProduct name count e) :
    ∃ factors, openChain .product (some .division) true e = .ok factors ∧
      Splits factors [] (.replicate count (.var name)) := by
  induction isProduct with
  | var => exact ⟨_, openChain_var name, .other rfl .nil⟩
  | product _ _ leftStep rightStep =>
    obtain ⟨first, firstOpened, splits⟩ := leftStep
    obtain ⟨second, secondOpened, splits'⟩ := rightStep
    refine ⟨first ++ second, ?_, ?_⟩
    · rw [openChain_focus rfl, firstOpened, secondOpened]
      rfl
    · rw [List.replicate_add]
      exact splits.append splits'

end IsVariableProduct

/-! ## Collecting the variable -/

/-- A simplification leaves integers and variables alone. -/
structure LeavesAlone (invariant : Cache -> Prop)
    (recursion : Recursion) : Prop where
  int : ∀ n : Int, Returns invariant (recursion (.int n)) (.int n)
  var : ∀ name, Returns invariant (recursion (.var name)) (.var name)

/-- A recursion with a level left gives a variable or a constant back. -/
theorem simplifyAt_leavesAlone
    (invariant : Cache -> Prop)
    (settings : Settings)
    (levels : Nat) :
    LeavesAlone invariant (simplifyAt settings (levels + 1)) :=
  ⟨fun _ => .pure rfl, fun _ => .pure rfl⟩

/-- Copies of a term that repeats itself are collected to the term with their
number. -/
theorem residue_copies
    {focus promoted : Operation}
    {inverse : Inverse}
    {unit : Int}
    (chain : StandardChain focus promoted inverse unit)
    {invariant : Cache -> Prop}
    {settings : Settings}
    (standard : settings.registry = .standard)
    {recursion : Recursion}
    {term : Expr}
    (noForeign : term.foreign? = none)
    (repeats : Returns invariant
      (multiple settings recursion promoted term term) (some (.int 1)))
    {count : Nat}
    (several : 2 ≤ count) :
    Returns invariant
      (Pass.residue settings recursion focus (.replicate count term))
      (some (.node promoted term (.int count))) := by
  have collects : Returns invariant
      (collect settings recursion focus (.replicate count term))
      [.node promoted term (.int count)] := by
    refine chain.collect_replicate standard noForeign several ?_
    refine (collectOrdered_copies repeats several).mono ?_
    rintro _ rfl
    exact ⟨by simp, rfl⟩
  obtain ⟨later, rfl⟩ := Nat.exists_eq_add_of_le' several
  exact .next collects
    (.next (.lift (Operation.joinAll_singleton _ _)) (.pure rfl))

/-- A variable repeats itself once, in sums and in products. -/
theorem StandardChain.multiple_var
    {focus promoted : Operation}
    {inverse : Inverse}
    {unit : Int}
    (chain : StandardChain focus promoted inverse unit)
    {invariant : Cache -> Prop}
    {settings : Settings}
    (standard : settings.registry = .standard)
    {recursion : Recursion}
    (leaves : LeavesAlone invariant recursion)
    (name : String) :
    Returns invariant
      (multiple settings recursion promoted (.var name) (.var name))
      (some (.int 1)) := by
  cases chain with
  | sum => exact multiple_self standard recursion rfl (by rintro ⟨⟩) rfl
  | product =>
    have equal : (Expr.var name).equal (.var name) = .ok true :=
      Expr.equal_self rfl
    rw [multiple_power standard]
    exact .next (.lift equal)
      (.next (.lift rfl) (.next (leaves.int 1) (.pure rfl)))

/-- The occurrences of the variable in a sum are collected. -/
theorem residue_vars
    {invariant : Cache -> Prop}
    {settings : Settings}
    (standard : settings.registry = .standard)
    {recursion : Recursion}
    (leaves : LeavesAlone invariant recursion)
    (name : String)
    {count : Nat}
    (present : 1 ≤ count) :
    Returns invariant
      (Pass.residue settings recursion .sum (.replicate count (.var name)))
      (some (.gathered name count)) := by
  obtain rfl | several := present.eq_or_lt
  · exact Pass.residue_single (leaves.var name)
  · rw [Expr.gathered_of_several name several]
    exact residue_copies .sum standard rfl
      (StandardChain.sum.multiple_var standard leaves name) several

/-! ## The rules -/

namespace Rules

variable (name : String) {count : Nat} (several : 2 ≤ count)

include several

theorem askZero_count : (Expr.int count).askZero = .ok false :=
  congrArg Except.ok (Expr.isZero_count several)

theorem askOne_count : (Expr.int count).askOne = .ok false :=
  congrArg Except.ok (Expr.isOne_count several)

/-- A number in front of a variable stays where it is. -/
theorem apply_multiple :
    apply .standard .product (.int count) (.var name) =
      .ok (.multiple name count) := by
  change product _ (.int count) (.var name) = _
  rw [product, askZero_count several, askOne_count several]
  rfl

/-- So does a number behind it. -/
theorem apply_collected :
    apply .standard .product (.var name) (.int count) =
      .ok (.collected name count) := by
  change product _ (.var name) (.int count) = _
  rw [product, askZero_count several, askOne_count several]
  rfl

/-- A power of a variable is not evaluated. -/
theorem apply_power :
    apply .standard .power (.var name) (.int count) =
      .ok (.node .power (.var name) (.int count)) := by
  change power .standard .power (.var name) (.int count) = _
  rw [power, askZero_count several, askOne_count several]
  have inverts :
      Registry.standard.multiplicative.bind Registry.standard.inverse? =
      some .division := rfl
  have positive : (Number.int count).isNegative = false := by
    rw [Number.isNegative, decide_eq_false_iff_not]
    omega
  simp [negativePower, inverts, positive, Expr.askZero, Expr.askOne,
    Expr.isZero, Expr.isOne]

omit several

/-- A constant is added in front of a term unless it is zero. -/
theorem apply_sum
    {e : Expr}
    (noConstant : e.isConst = false)
    (noForeign : e.foreign? = none)
    (constant : Int) :
    apply .standard .sum (.int constant) e =
      .ok (if constant = 0 then e else .node .sum (.int constant) e) := by
  have right : e.askZero = .ok false := by
    cases e with
    | const value => cases noConstant
    | foreign object => cases noForeign
    | _ => rfl
  have left : (Expr.int constant).askZero = .ok (constant == 0) := rfl
  change sum _ (.int constant) e = _
  rw [sum, right, left]
  by_cases isZero : constant = 0
  · simp [isZero]
  · simp [isZero]

end Rules

/-! ## Passes over products -/

section Products

variable {name : String} {count : Nat} (several : 2 ≤ count)
  {settings : Settings}
  (standard : settings.registry = .standard) {recursion : Recursion}
  {entryHolds : Fingerprint -> Remembered -> Prop}
  (leaves : LeavesAlone (Cache.Holds entryHolds) recursion)

include several standard leaves

/-- A pass over a product of a number and a variable puts the number in
front. -/
theorem Pass.run_factors
    {left right : Expr}
    (noForeign : (Expr.node .product left right).foreign? = none)
    {factors : List Expr}
    (opened : openChain .product (some .division) true
      (.node .product left right) = .ok factors)
    (splits : Splits factors [(count : Int)] [.var name])
    (remembered : entryHolds (Expr.node .product left right).tokens
      ⟨.node .product left right, .multiple name count⟩) :
    Returns (Cache.Holds entryHolds)
      (Pass.run settings recursion (.node .product left right))
      (Pass.reaching (Expr.node .product left right).tokens
        (.multiple name count)) := by
  refine Pass.run_returns_of_chain .product standard noForeign
    (Pass.reduceChain_returns .product standard leaves.int opened splits
      (Pass.residue_single (leaves.var name)) rfl count
      fun _ => Operation.joinAll_singleton _ _) ?_
  refine Pass.finish_returns (leaves.int count) (leaves.var name) rfl
    remembered ?_ (Pass.refine_returns (leaves.int count) (leaves.var name)) rfl
  rw [standard]
  exact Rules.apply_multiple name several

/-- One pass turns a collected term into a multiple, and remembers that. -/
theorem Pass.run_collected
    (remembered : entryHolds (Expr.collected name count).tokens
      ⟨.collected name count, .multiple name count⟩) :
    Returns (Cache.Holds entryHolds)
      (Pass.run settings recursion (.collected name count))
      (Pass.reaching (Expr.collected name count).tokens
        (.multiple name count)) := by
  refine Pass.run_factors several standard leaves rfl ?_
    (.other rfl (.int count .nil)) remembered
  rw [openChain_focus rfl, openChain_var, openChain_const]
  rfl

/-- A number times a variable is left as it is. -/
theorem Pass.run_multiple
    (remembered : entryHolds (Expr.multiple name count).tokens
      ⟨.multiple name count, .multiple name count⟩) :
    Returns (Cache.Holds entryHolds)
      (Pass.run settings recursion (.multiple name count))
      (Pass.final (.multiple name count)) := by
  rw [← Pass.reaching_self]
  refine Pass.run_factors several standard leaves rfl ?_
    (.int count (.other rfl .nil)) remembered
  rw [openChain_focus rfl, openChain_var, openChain_const]
  rfl

end Products

/-! ## Sums with integers -/

/-- What is remembered for sums and for products has one result each. -/
structure Remembered.FitsSum
    (name : String)
    (constant : Int)
    (count : Nat)
    (key : Fingerprint)
    (entry : Remembered) : Prop where
  comparable : entry.source.foreign? = none
  ofSum : key.head? = some Operation.sum.id ->
    entry.result = .node .sum (.int constant) (.occurrences name count)
  ofProduct : key.head? = some Operation.product.id ->
    entry.result = .multiple name count

/-- All that a cache remembers fits a simplification of a sum. -/
abbrev Cache.FitsSum (name : String) (constant : Int) (count : Nat) :
    Cache -> Prop :=
  Holds (Remembered.FitsSum name constant count)

namespace Remembered.FitsSum

variable {name : String} {constant : Int} {count : Nat} {left right : Expr}

/-- The result of a product may be remembered: it is about no sum. -/
theorem ofProductNode
    (noForeign : (Expr.node .product left right).foreign? = none) :
    FitsSum name constant count (Expr.node .product left right).tokens
      ⟨.node .product left right, .multiple name count⟩ where
  comparable := noForeign
  ofSum := by rintro ⟨⟩
  ofProduct := fun _ => rfl

/-- The result of a sum may be remembered if it is the affine sum. -/
theorem ofSumNode (noForeign : (Expr.node .sum left right).foreign? = none) :
    FitsSum name constant count (Expr.node .sum left right).tokens
      ⟨.node .sum left right,
        .node .sum (.int constant) (.occurrences name count)⟩ where
  comparable := noForeign
  ofSum := fun _ => rfl
  ofProduct := by rintro ⟨⟩

end Remembered.FitsSum

section Sums

variable {name : String} {constant : Int} {count : Nat} {settings : Settings}
  (standard : settings.registry = .standard) {passes : Nat}
  (iterations : settings.limits.iterations = passes + 2) {levels : Nat}

include standard iterations

/-- Below a sum, the collected variable is simplified on its own. -/
theorem simplifyAt_collected (several : 2 ≤ count) :
    Returns (Cache.FitsSum name constant count)
      (simplifyAt settings (levels + 2) (.collected name count))
        (.multiple name count) := by
  have leaves :=
    simplifyAt_leavesAlone (Cache.FitsSum name constant count) settings levels
  refine simplifyNode_returns (fun _ _ fits => fits.comparable) rfl
    (fun _ fits => fits.ofProduct rfl) ?_ (.ofProductNode rfl)
  rw [iterations]
  exact iterate_settles (fun _ _ fits => fits.comparable) rfl
    (Pass.run_collected several standard leaves (.ofProductNode rfl))
    (Pass.run_multiple several standard leaves (.ofProductNode rfl))
      (.ofProductNode rfl)
    (fun _ fits _ => fits.ofProduct rfl) passes

/-- A multiple of a variable is simplified to itself. -/
theorem simplifyAt_multiple (several : 2 ≤ count) :
    Returns (Cache.FitsSum name constant count)
      (simplifyAt settings (levels + 2) (.multiple name count))
        (.multiple name count) := by
  have leaves :=
    simplifyAt_leavesAlone (Cache.FitsSum name constant count) settings levels
  refine simplifyNode_returns (fun _ _ fits => fits.comparable) rfl
    (fun _ fits => fits.ofProduct rfl) ?_ (.ofProductNode rfl)
  rw [iterations]
  exact iterate_final (Pass.run_multiple several standard leaves
    (.ofProductNode rfl)) (passes + 1)

/-- What the variable is collected to is simplified to its occurrences. -/
theorem simplifyAt_gathered (present : 1 ≤ count) :
    Returns (Cache.FitsSum name constant count)
      (simplifyAt settings (levels + 2) (.gathered name count))
        (.occurrences name count) := by
  obtain ⟨isVar, isVar'⟩ | ⟨several, isMultiple, isCollected⟩ :=
    Expr.occurrences_eq_or name present
  · rw [isVar, isVar']
    exact .pure rfl
  · rw [isMultiple, isCollected]
    exact simplifyAt_collected standard iterations several

/-- What the occurrences of a variable are gathered into is simplified to
itself. -/
theorem simplifyAt_occurrences (present : 1 ≤ count) :
    Returns (Cache.FitsSum name constant count)
      (simplifyAt settings (levels + 2) (.occurrences name count))
        (.occurrences name count) := by
  obtain ⟨isVar, -⟩ | ⟨several, isMultiple, -⟩ :=
    Expr.occurrences_eq_or name present
  · rw [isVar]
    exact .pure rfl
  · rw [isMultiple]
    exact simplifyAt_multiple standard iterations several

/-- The operands of the form of a sum are simplified already. -/
theorem Pass.refine_affine (present : 1 ≤ count) :
    Returns (Cache.FitsSum name constant count)
      (Pass.refine (simplifyAt settings (levels + 2))
        (.affine name constant count))
      (.affine name constant count) := by
  unfold Expr.affine
  split
  · obtain ⟨isVar, -⟩ | ⟨-, isMultiple, -⟩ :=
      Expr.occurrences_eq_or name present
    · rw [isVar]
      exact .pure rfl
    · rw [isMultiple]
      exact Pass.refine_returns (.pure rfl) (.pure rfl)
  · exact Pass.refine_returns (.pure rfl)
      (simplifyAt_occurrences standard iterations present)

/-- A pass over a sum with integers whose other terms come to the occurrences of
the variable. -/
theorem Pass.run_sum
    (present : 1 ≤ count)
    {left right : Expr}
    (noForeign : (Expr.node .sum left right).foreign? = none)
    {terms others : List Expr}
    {ints : List Int}
    (opened : openChain .sum (some .subtraction) true (.node .sum left right) =
      .ok terms)
    (splits : Splits terms ints others)
    (withIntegers : ints ≠ [])
    (total : ints.sum = constant)
    {rest : Expr}
    (noConstant : rest.isConst = false)
    (rests : Returns (Cache.FitsSum name constant count)
      (Pass.residue settings (simplifyAt settings (levels + 2)) .sum others)
        (some rest))
    (simplifies : Returns (Cache.FitsSum name constant count)
      (simplifyAt settings (levels + 2) rest) (.occurrences name count)) :
    Returns (Cache.FitsSum name constant count)
      (Pass.run settings (simplifyAt settings (levels + 2))
        (.node .sum left right))
      (Pass.reaching (Expr.node .sum left right).tokens
        (.affine name constant count)) := by
  subst total
  have leaves := simplifyAt_leavesAlone (Cache.FitsSum name ints.sum count)
    settings (levels + 1)
  have reduces := Pass.reduceChain_returns .sum standard leaves.int opened
    splits rests noConstant
    ints.sum fun _ => Operation.joinAll_ints withIntegers
  rw [if_neg withIntegers] at reduces
  refine Pass.run_returns_of_chain .sum standard noForeign reduces ?_
  have rule := Rules.apply_sum (Expr.isConst_occurrences name count)
    (Expr.foreign?_occurrences name count) ints.sum
  rw [← standard] at rule
  exact Pass.finish_returns (leaves.int _) simplifies
    (Expr.isConst_occurrences name count)
    (.ofSumNode noForeign) rule (Pass.refine_affine standard iterations present)
    (Expr.foreign?_affine name ints.sum count)

/-- A pass over an integer plus the occurrences of the variable leaves it as it
is. -/
theorem Pass.run_affine
    (present : 1 ≤ count)
    (notZero : constant ≠ 0) :
    Returns (Cache.FitsSum name constant count)
      (Pass.run settings (simplifyAt settings (levels + 2))
        (.node .sum (.int constant) (.occurrences name count)))
      (Pass.final (.node .sum (.int constant) (.occurrences name count))) := by
  have noForeign :
      (Expr.node .sum (.int constant) (.occurrences name count)).foreign? =
      none :=
    Option.or_eq_none_iff.2 ⟨rfl, Expr.foreign?_occurrences name count⟩
  have opened : openChain .sum (some .subtraction) true
      (.node .sum (.int constant) (.occurrences name count)) =
        .ok [.int constant, .occurrences name count] := by
    rw [openChain_focus rfl, openChain_const, Expr.openChain_occurrences]
    rfl
  have simplifies : Returns (Cache.FitsSum name constant count)
      (simplifyAt settings (levels + 2) (.occurrences name count))
        (.occurrences name count) :=
    simplifyAt_occurrences standard iterations present
  have ran := Pass.run_sum standard iterations present noForeign opened
    (.int constant (.other (Expr.hasOnlyConstants_occurrences name count) .nil))
    (List.cons_ne_nil constant []) List.sum_singleton
      (Expr.isConst_occurrences name count)
    (Pass.residue_single simplifies) simplifies
  rwa [Expr.affine, if_neg notZero, Pass.reaching_self] at ran

/-- The passes over a sum of integers and the variable, two of them at most. -/
theorem iterate_sum
    (present : 1 ≤ count)
    {left right : Expr}
    (noForeign : (Expr.node .sum left right).foreign? = none)
    {terms : List Expr}
    {ints : List Int}
    (opened : openChain .sum (some .subtraction) true (.node .sum left right) =
      .ok terms)
    (splits : Splits terms ints (.replicate count (.var name)))
    (withIntegers : ints ≠ [])
    (total : ints.sum = constant)
    (further : Nat)
    (source : Expr) :
    Returns (Cache.FitsSum name constant count)
      (iterate settings (simplifyAt settings (levels + 2)) source (further + 2)
        (.node .sum left right))
      (.affine name constant count) := by
  have leaves := simplifyAt_leavesAlone (Cache.FitsSum name constant count)
    settings (levels + 1)
  have ran := Pass.run_sum standard iterations present noForeign opened splits
    withIntegers total
    (Expr.isConst_gathered name count)
      (residue_vars standard leaves name present)
    (simplifyAt_gathered standard iterations present)
  by_cases isZero : constant = 0
  · rw [Expr.affine, if_pos isZero] at ran ⊢
    obtain ⟨isVar, -⟩ | ⟨several, isMultiple, -⟩ :=
      Expr.occurrences_eq_or name present
    · rw [isVar] at ran ⊢
      exact iterate_final ran (further + 1)
    · rw [isMultiple] at ran ⊢
      exact iterate_settles (fun _ _ fits => fits.comparable) rfl ran
        (Pass.run_multiple several standard leaves (.ofProductNode rfl))
          (.ofProductNode rfl)
        (fun _ fits _ => fits.ofProduct rfl) further
  · have noForeign := Expr.foreign?_affine name constant count
    rw [Expr.affine, if_neg isZero] at ran noForeign ⊢
    exact iterate_settles (fun _ _ fits => fits.comparable) noForeign ran
      (Pass.run_affine standard iterations present isZero)
        (.ofSumNode noForeign)
      (fun _ fits _ => fits.ofSum rfl) further

end Sums

/-! ## Chains of the variable alone -/

/-- What is remembered for a certain tree is the tree itself. -/
structure Remembered.Settles (result : Expr) (entry : Remembered) : Prop where
  comparable : entry.source.foreign? = none
  of_equal : entry.source.equal result = .ok true -> entry.result = result

section Alone

variable {name : String} {count : Nat} (several : 2 ≤ count)
  {settings : Settings}
  (standard : settings.registry = .standard) {recursion : Recursion}
  (leaves : ∀ invariant, LeavesAlone invariant recursion) {left right : Expr}
  {terms : List Expr}

include several standard leaves

/-- A pass over a chain of the variable alone collects it. -/
theorem Pass.run_copies
    {focus promoted : Operation}
    {inverse : Inverse}
    {unit : Int}
    (chain : StandardChain focus promoted inverse unit)
    {entryHolds : Fingerprint -> Remembered -> Prop}
    (noForeign : (Expr.node focus left right).foreign? = none)
    (opened : openChain focus (some inverse) true (.node focus left right) =
      .ok terms)
    (splits : Splits terms [] (.replicate count (.var name)))
    (remembered : entryHolds (Expr.node focus left right).tokens
      ⟨.node focus left right, .node promoted (.var name) (.int count)⟩) :
    Returns (Cache.Holds entryHolds)
      (Pass.run settings recursion (.node focus left right))
      (Pass.reaching (Expr.node focus left right).tokens
        (.node promoted (.var name) (.int count))) := by
  have leaves := leaves (Cache.Holds entryHolds)
  have collects :=
    residue_copies chain standard rfl (chain.multiple_var standard leaves name)
    several
  refine Pass.run_returns_of_chain chain standard noForeign
    (Pass.reduceChain_returns chain standard leaves.int opened splits
      collects rfl unit fun absent => (absent rfl).elim) ?_
  refine Pass.finish_returns (leaves.var name) (leaves.int count) rfl
    remembered ?_ (Pass.refine_returns (leaves.var name) (leaves.int count)) rfl
  rw [standard]
  cases chain with
  | sum => exact Rules.apply_collected name several
  | product => exact Rules.apply_power name several

/-- The passes over a sum of the variable alone: the first one collects it, the
second one puts the number in front.  Before the second pass only the sum is
remembered, and it equals no product. -/
theorem iterate_sum_of_copies
    (noForeign : (Expr.node .sum left right).foreign? = none)
    (opened : openChain .sum (some .subtraction) true (.node .sum left right) =
      .ok terms)
    (splits : Splits terms [] (.replicate count (.var name)))
    (further : Nat)
    (source : Expr) :
    Returns (Cache.Holds fun _ entry => entry.source = .node .sum left right)
      (iterate settings recursion source (further + 3) (.node .sum left right))
      (.multiple name count) := by
  have laterLeaves :=
    leaves (Cache.Holds fun _ => Remembered.Settles (.multiple name count))
  have settles (entry : Remembered)
      (same : entry.source = .node .sum left right) :
      entry.Settles (.multiple name count) := by
    obtain ⟨_, result⟩ := entry
    cases same
    exact ⟨noForeign, by rintro ⟨⟩⟩
  have settled :
      Returns (Cache.Holds fun _ => Remembered.Settles (.multiple name count))
      (iterate settings recursion source (further + 2) (.collected name count))
      (.multiple name count) :=
    iterate_settles (fun _ _ settles => settles.comparable) rfl
      (Pass.run_collected several standard laterLeaves ⟨rfl, by rintro ⟨⟩⟩)
      (Pass.run_multiple several standard laterLeaves ⟨rfl, fun _ => rfl⟩)
        ⟨rfl, fun _ => rfl⟩
      (fun _ settles => settles.of_equal) further
  refine iterate_advances
    (fun _ entry same => (settles entry same).comparable) rfl
    (Pass.run_copies several standard leaves .sum noForeign opened splits rfl)
      ?_ ?_
    (.isolated (.next (.remember ⟨rfl, by rintro ⟨⟩⟩ false) settled)
      fun cache holds key entry member =>
        settles entry (holds key entry member))
  · intro unchanged
    simp [Pass.reaching, Expr.isCompound, Operation.sum, Operation.product]
      at unchanged
  · rintro ⟨_, _⟩ rfl ⟨⟩

/-- A power of the variable is left as it is. -/
theorem Pass.run_power
    {entryHolds : Fingerprint -> Remembered -> Prop}
    (remembered : entryHolds (Expr.node .power (.var name) (.int count)).tokens
      ⟨.node .power (.var name) (.int count),
        .node .power (.var name) (.int count)⟩) :
    Returns (Cache.Holds entryHolds)
      (Pass.run settings recursion (.node .power (.var name) (.int count)))
      (Pass.final (.node .power (.var name) (.int count))) := by
  have leaves := leaves (Cache.Holds entryHolds)
  have noChain : goesThroughChain .standard .power (.var name) (.int count) =
      .ok false := rfl
  rw [run_node, standard, noChain]
  refine .next (.lift (Expr.fingerprint_eq_ok _ rfl)) (.next (.lift rfl) ?_)
  rw [← Pass.reaching_self]
  refine Pass.finish_returns (leaves.var name) (leaves.int count) rfl
    remembered ?_ (Pass.refine_returns (leaves.var name) (leaves.int count)) rfl
  rw [standard]
  exact Rules.apply_power name several

/-- The passes over a product of the variable alone. -/
theorem iterate_product_of_copies
    (noForeign : (Expr.node .product left right).foreign? = none)
    (opened : openChain .product (some .division) true
      (.node .product left right) = .ok terms)
    (splits : Splits terms [] (.replicate count (.var name)))
    (further : Nat)
    (source : Expr) :
    Returns (Cache.Holds fun _ =>
      Remembered.Settles (.node .power (.var name) (.int count)))
      (iterate settings recursion source (further + 2)
        (.node .product left right))
      (.node .power (.var name) (.int count)) :=
  iterate_settles (fun _ _ settles => settles.comparable) rfl
    (Pass.run_copies several standard leaves .product noForeign opened splits
      ⟨noForeign, fun _ => rfl⟩)
    (Pass.run_power several standard leaves ⟨rfl, fun _ => rfl⟩)
      ⟨rfl, fun _ => rfl⟩
    (fun _ settles => settles.of_equal) further

end Alone

/-! ## The form that is reached -/

/-- A sum in which the variable occurs is simplified to the affine sum. -/
theorem simplified_sum_node
    {name : String}
    {constant : Int}
    {count : Nat}
    {left right : Expr}
    (isSum : IsAffineSum name constant count (.node .sum left right))
    (present : 1 ≤ count) :
    simplified .standard (.node .sum left right) =
      .ok (.affine name constant count) := by
  have standard : Settings.standard.registry = .standard := rfl
  have iterations : Settings.standard.limits.iterations = 62 + 2 := rfl
  have deep : Settings.standard.limits.depth = 97 + 2 + 1 := rfl
  have noForeign := isSum.foreign?_eq_none
  obtain ⟨terms, ints, opened, splits, total, -, several⟩ := isSum.exists_terms
  by_cases withIntegers : ints = []
  · subst withIntegers
    cases total
    have several : 2 ≤ count := by simpa using several rfl
    have isMultiple : Expr.affine name 0 count = .multiple name count :=
      Expr.occurrences_of_several name several
    rw [List.sum_nil, isMultiple]
    exact simplified_of_iterate noForeign deep
      (iterate_sum_of_copies several standard
      (fun invariant => simplifyAt_leavesAlone invariant .standard 98) noForeign
        opened splits 61 _)
  · exact simplified_of_iterate noForeign deep
      (iterate_sum standard iterations present noForeign opened splits
        withIntegers total 62 _)

/-- A product of two or more copies of a variable is simplified to the power. -/
theorem simplified_product_node
    {name : String}
    {count : Nat}
    {left right : Expr}
    (isProduct : IsVariableProduct name count (.node .product left right))
    (several : 2 ≤ count) :
    simplified .standard (.node .product left right) =
      .ok (.node .power (.var name) (.int count)) := by
  have standard : Settings.standard.registry = .standard := rfl
  have deep : Settings.standard.limits.depth = 98 + 1 + 1 := rfl
  have noForeign := isProduct.foreign?_eq_none
  obtain ⟨factors, opened, splits⟩ := isProduct.exists_factors
  exact simplified_of_iterate noForeign deep
    (iterate_product_of_copies several standard
    (fun invariant => simplifyAt_leavesAlone invariant .standard 98) noForeign
      opened splits 62 _)

/-- A sum of integers with the total `c` and of `n` occurrences of a variable
`v` is simplified to `v`, `n*v`, `c+v` or `c+n*v`: the integer is left out if it
is zero, and the number if it is one. A product of `n` occurrences of the
variable is simplified to `v^n`. -/
theorem simplified_affine (name : String) :
    (∀ constant count e, IsAffineSum name constant count e -> 1 ≤ count ->
      simplified .standard e = .ok (.affine name constant count)) ∧
    (∀ count e, IsVariableProduct name count e -> 2 ≤ count ->
      simplified .standard e =
        .ok (.node .power (.var name) (.int count))) := by
  constructor
  · intro constant count e isSum present
    cases isSum with
    | int n => cases present
    | var => rfl
    | sum leftSum rightSum =>
      exact simplified_sum_node (.sum leftSum rightSum) present
  · intro count e isProduct several
    cases isProduct with
    | var => omega
    | product leftProduct rightProduct =>
      exact simplified_product_node (.product leftProduct rightProduct) several

theorem simplified_affine_nested :
    simplified .standard
        (.node .sum (.node .sum (.var "x") (.int 2))
          (.node .sum (.int (-5)) (.var "x"))) =
      .ok (.node .sum (.int (-3)) (.node .product (.int 2) (.var "x"))) ∧
    simplified .standard
      (.node .product (.var "x") (.node .product (.var "x") (.var "x"))) =
      .ok (.node .power (.var "x") (.int 3)) := by
  constructor
  · exact (simplified_affine "x").1 (-3) 2 _
      (.sum (.sum .var (.int 2)) (.sum (.int (-5)) .var)) (by decide)
  · exact (simplified_affine "x").2 3 _ (.product .var (.product .var .var))
      (by decide)

end Symbolic
