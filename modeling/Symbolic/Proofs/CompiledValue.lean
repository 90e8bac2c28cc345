import Symbolic.Compiled
import Symbolic.Proofs.DoubleBits
import Symbolic.Proofs.Equality
import Symbolic.Proofs.Reading
import Symbolic.Proofs.Rounding

/-!
# Compiled code computes the value of its tree

Code works on doubles alone, while a tree is evaluated with its integers as they
are.  The two agree as long as an operation never meets two integers: wherever
one of the operands is a double, the other one is rounded to a double before
anything is computed, which is what the compiler has done with it in advance.

`Expr.IsCompilable` says this of a tree: every node has a variable below it, and
no integer is beyond all doubles.  Variables are resolved to places in an
ordering of their names, and any ordering with the same values at its places
leads to the same result.
-/

namespace Symbolic

/-- An integer of 64 bits has a nearest double. -/
theorem Decimal.nearestInt?_eq_some
    {n : Int}
    (bounded : n.natAbs < 2 ^ 64) :
    nearestInt? n = some (nearestInt n) := by
  have finite : isFinite (nearestInt n) = true :=
    isFinite_ofSignAndBits _ (nearestBits_lt_infinityBits bounded)
  rw [nearestInt?]
  exact if_pos finite

namespace Expr

/-- Nothing in the tree is blank or foreign, its integers fit in 64 bits, and
every node has a variable below it.  The operands may be anything else,
constants in wrappers included. -/
def IsCompilable : Expr -> Prop
  | blank => False
  | const (.int value) => value.natAbs < 2 ^ 64
  | const (.real _) => True
  | var _ => True
  | node _ left right =>
    left.names ++ right.names ≠ [] ∧ left.IsCompilable ∧ right.IsCompilable
  | wrap inner => inner.IsCompilable
  | foreign _ => False

theorem IsCompilable.foreign?_eq_none
    {e : Expr}
    (compilable : e.IsCompilable) :
    e.foreign? = none := by
  induction e with
  | node operation left right leftStep rightStep =>
    rw [foreign?, leftStep compilable.2.1, rightStep compilable.2.2]
    rfl
  | wrap inner inductive_step => exact inductive_step compilable
  | foreign object => exact compilable.elim
  | _ => rfl

/-- The names list every variable of the tree once, and there is one value for
each name. -/
structure IsSampledBy (e : Expr) (names : List String)
    (values : List Float) : Prop where
  unique : names.Nodup
  complete : ∀ name ∈ e.names, name ∈ names
  length : values.length = names.length

end Expr

/-- The mapping that gives each name the value at its place. -/
def valueAt (names : List String) (values : List Float) (name : String) :
    Option Float :=
  (names.zip values).lookup name

/-- The doubles of a mapping as the values of variables. -/
def Environment.ofDoubles (values : String -> Option Float) : Environment :=
  fun name => (values name).map fun x => .number (.real x)

/-! ## Places of names -/

/-- A listed name has a place, and the value at that place is the value of the
name. -/
theorem exists_place
    {names : List String}
    {values : List Float}
    (length : values.length = names.length)
    {name : String}
    (member : name ∈ names) :
    ∃ index x, names.idxOf? name = some index ∧ values[index]? = some x ∧
      valueAt names values name = some x := by
  induction names generalizing values with
  | nil => cases member
  | cons first rest inductive_step =>
    match values, length with
    | x :: others, length =>
      by_cases same : first = name
      · subst same
        exact ⟨0, x, by simp [List.idxOf?_cons], rfl, by simp [valueAt]⟩
      · have inRest :=
          (List.mem_cons.1 member).resolve_left fun equal => same equal.symm
        obtain ⟨index, y, place, atPlace, found⟩ :=
          inductive_step (Nat.succ.inj length) inRest
        have different : (name == first) = false := by
          simpa using fun h => same h.symm
        refine ⟨index + 1, y, ?_, atPlace, ?_⟩
        · simp [List.idxOf?_cons, same, place]
        · simpa [valueAt, List.lookup_cons, different] using found

theorem valuesOf_congr
    {values values' : String -> Option Float}
    {names : List String}
    (same : ∀ name ∈ names, values name = values' name) :
    Compiled.valuesOf values names = Compiled.valuesOf values' names := by
  induction names with
  | nil => rfl
  | cons first rest inductive_step =>
    obtain ⟨sameFirst, sameRest⟩ := List.forall_mem_cons.1 same
    rw [Compiled.valuesOf, Compiled.valuesOf, sameFirst,
      inductive_step sameRest]

/-- The values of a mapping in the order of the names are the values at the
places. -/
theorem valuesOf_valueAt
    {names : List String}
    {values : List Float}
    (unique : names.Nodup)
    (length : values.length = names.length) :
    Compiled.valuesOf (valueAt names values) names = .ok values := by
  induction names generalizing values with
  | nil =>
    match values, length with
    | [], _ => rfl
  | cons first rest inductive_step =>
    match values, length with
    | x :: others, length =>
      obtain ⟨new, restUnique⟩ := List.nodup_cons.1 unique
      have behind : ∀ name ∈ rest,
          valueAt (first :: rest) (x :: others) name =
            valueAt rest others name := by
        intro name member
        have different : (name == first) = false := by
          refine beq_eq_false_iff_ne.2 ?_
          rintro rfl
          exact new member
        simp [valueAt, List.lookup_cons, different]
      have atFirst : valueAt (first :: rest) (x :: others) first = some x := by
        simp [valueAt]
      rw [Compiled.valuesOf, atFirst, valuesOf_congr behind,
        inductive_step restUnique (Nat.succ.inj length)]
      rfl

/-! ## Running code -/

/-- As soon as one of two numbers is a double, both are combined as doubles. -/
theorem Value.combine_of_real
    (kernel : Kernel)
    {a b : Number}
    (mixed : (∃ x, a = .real x) ∨ ∃ y, b = .real y) :
    Value.combine kernel (.number a) (.number b) =
      .ok (.number (.real (kernel.double a.toDouble b.toDouble))) := by
  cases a with
  | real x => rfl
  | int m =>
    cases b with
    | real y => rfl
    | int n => rcases mixed with ⟨x, ⟨⟩⟩ | ⟨y, ⟨⟩⟩

/-- The code of a tree gives the value of the tree as a double.  If the tree has
a variable, its value is a double already. -/
theorem Code.run_ofExpr
    {e : Expr}
    (compilable : e.IsCompilable)
    {names : List String}
    {values : List Float}
    (complete : ∀ name ∈ e.names, name ∈ names)
    (length : values.length = names.length)
    {mapping : String -> Option Float}
    (maps : ∀ name ∈ e.names, mapping name = valueAt names values name) :
    ∃ code number, ofExpr names e = .ok code ∧
      code.run (.point values) = .ok (.number (.real number.toDouble)) ∧
      e.evaluate (.ofDoubles mapping) = .ok (.number number) ∧
      (e.names ≠ [] -> ∃ y, number = .real y) := by
  induction e with
  | blank => exact compilable.elim
  | foreign object => exact compilable.elim
  | const value =>
    have converts : value.toDouble? = some value.toDouble := by
      cases value with
      | int n => exact Decimal.nearestInt?_eq_some compilable
      | real x => rfl
    refine ⟨.constant value.toDouble, value, ?_, rfl, rfl,
      fun named => absurd rfl named⟩
    rw [ofExpr, converts]
  | var name =>
    obtain ⟨index, x, place, atPlace, found⟩ :=
      exists_place length (complete name (by simp))
    refine ⟨.slot index, .real x, ?_, ?_, ?_, fun _ => ⟨x, rfl⟩⟩
    · rw [ofExpr, place]
    · rw [run, Sample.get?, atPlace]
      rfl
    · rw [Expr.evaluate, Environment.ofDoubles, maps name (by simp), found]
      rfl
  | wrap inner inductive_step => exact inductive_step compilable complete maps
  | node operation left right leftStep rightStep =>
    obtain ⟨named, leftCompilable, rightCompilable⟩ := compilable
    simp only [Expr.names_node, List.mem_append] at complete maps
    obtain ⟨leftCode, a, leftCompiled, leftRun, leftValue, leftReal⟩ :=
      leftStep leftCompilable (fun name member => complete name (.inl member))
        fun name member => maps name (.inl member)
    obtain ⟨rightCode, b, rightCompiled, rightRun, rightValue, rightReal⟩ :=
      rightStep rightCompilable (fun name member => complete name (.inr member))
        fun name member => maps name (.inr member)
    have mixed : (∃ x, a = .real x) ∨ ∃ y, b = .real y := by
      by_cases leftNamed : left.names = []
      · rw [leftNamed] at named
        exact .inr (rightReal named)
      · exact .inl (leftReal leftNamed)
    refine ⟨.apply operation.kernel leftCode rightCode,
      .real (operation.kernel.double a.toDouble b.toDouble), ?_, ?_, ?_,
        fun _ => ⟨_, rfl⟩⟩
    · rw [ofExpr, leftCompiled, rightCompiled]
      rfl
    · rw [run, leftRun, rightRun]
      rfl
    · rw [Expr.evaluate, leftValue, rightValue]
      exact Value.combine_of_real operation.kernel mixed

/-- Code that is run on one double for each name gives a double. -/
theorem Code.exists_run_of_ofExpr
    {names : List String}
    {values : List Float}
    (length : values.length = names.length)
    {e : Expr}
    {code : Code}
    (coded : ofExpr names e = .ok code) :
    ∃ y, code.run (.point values) = .ok (.number (.real y)) := by
  induction e generalizing code with
  | blank => cases coded
  | foreign object => cases coded
  | const value =>
    rw [ofExpr] at coded
    split at coded
    · next x _ =>
      cases coded
      exact ⟨x, rfl⟩
    · cases coded
  | var name =>
    rw [ofExpr] at coded
    split at coded
    · next index place =>
      cases coded
      have member : name ∈ names := by
        by_contra unlisted
        rw [List.idxOf?_eq_none_iff.2 unlisted] at place
        cases place
      obtain ⟨index', x, place', atPlace, -⟩ := exists_place length member
      cases place.symm.trans place'
      exact ⟨x, by rw [run, Sample.get?, atPlace]; rfl⟩
    · cases coded
  | wrap inner inductive_step => exact inductive_step coded
  | node operation left right leftStep rightStep =>
    obtain ⟨leftCode, leftCoded, codedRight⟩ := Result.bind_eq_ok.1 coded
    obtain ⟨rightCode, rightCoded, returned⟩ := Result.bind_eq_ok.1 codedRight
    cases returned
    obtain ⟨x, leftRun⟩ := leftStep leftCoded
    obtain ⟨y, rightRun⟩ := rightStep rightCoded
    exact ⟨operation.kernel.double x y, by rw [run, leftRun, rightRun]; rfl⟩

namespace Compiled

theorem repeatedNames_eq_nil
    {names : List String}
    (unique : names.Nodup) :
    repeatedNames names = [] := by
  have once :
      (names.filter fun name => decide (1 < names.count name)) = [] := by
    refine List.filter_eq_nil_iff.2 fun name _ => ?_
    have := List.nodup_iff_count_le_one.1 unique name
    simpa using this
  rw [repeatedNames, once, List.mergeSort_nil]
  rfl

theorem checkOperand_eq_ok
    {e : Expr}
    (noForeign : e.foreign? = none) :
    checkOperand e = .ok () := by
  unfold checkOperand
  split
  · rfl
  · rw [Expr.fingerprint_eq_ok e noForeign]
    rfl

theorem nodup_eraseDups (names : List String) : names.eraseDups.Nodup := by
  induction length : names.length using Nat.strongRecOn generalizing names with
  | ind count inductive_step =>
    cases names with
    | nil => exact List.nodup_nil
    | cons name rest =>
      have shorter :
          (rest.filter fun other => !other == name).length < count := by
        have atMost := List.length_filter_le (fun other => !other == name) rest
        rw [List.length_cons] at length
        omega
      rw [List.eraseDups_cons, List.nodup_cons]
      exact ⟨by simp [List.mem_eraseDups], inductive_step _ shorter _ rfl⟩

/-- A tree without foreign objects is compiled over a list of different names as
soon as its code is made. -/
theorem ofExpr_of_unique
    {e : Expr}
    (noForeign : e.foreign? = none)
    {names : List String}
    (unique : names.Nodup) :
    ofExpr (some names) e =
      (Code.ofExpr names e >>= fun code => .ok ⟨e, names, code⟩) := by
  rw [ofExpr_some, repeatedNames_eq_nil unique, List.isEmpty_nil, if_pos rfl,
    checkOperand_eq_ok noForeign, Result.ok_bind]

/-- A tree without foreign objects is compiled over its own variables as soon as
its code is made. -/
theorem ofExpr_none
    {e : Expr}
    (noForeign : e.foreign? = none) :
    ofExpr none e = (Code.ofExpr e.variableNames e >>= fun code =>
      .ok ⟨e, e.variableNames, code⟩) := by
  have asked : e.askVariableNames = .ok e.variableNames := by
    simp only [Expr.askVariableNames, noForeign]
  rw [ofExpr, ofExprWith_none, asked, Result.ok_bind, ← ofExpr]
  exact ofExpr_of_unique noForeign (nodup_eraseDups _)

/-- A call with one argument for each variable gives a double. -/
theorem exists_call_of_ofExpr
    {e : Expr}
    {compiled : Compiled}
    (noForeign : e.foreign? = none)
    (isCompiled : ofExpr none e = .ok compiled)
    {values : List Float}
    (length : values.length = compiled.names.length) :
    ∃ y, compiled.call values = .ok y := by
  rw [ofExpr_none noForeign] at isCompiled
  obtain ⟨code, coded, returned⟩ := Result.bind_eq_ok.1 isCompiled
  cases returned
  obtain ⟨y, ran⟩ := Code.exists_run_of_ofExpr length coded
  exact ⟨y, by rw [call, if_pos length, value, run, ran]; rfl⟩

/-- A tree is compiled over every ordering that lists its variables, and running
the code gives the value of the tree at any mapping that agrees with the values
at the places. -/
theorem exists_run_eq_evaluate
    {tree : Expr}
    (compilable : tree.IsCompilable)
    (named : tree.names ≠ [])
    {names : List String}
    {values : List Float}
    (sampled : tree.IsSampledBy names values)
    {mapping : String -> Option Float}
    (maps : ∀ name ∈ tree.names, mapping name = valueAt names values name) :
    ∃ compiled y, ofExpr (some names) tree = .ok compiled ∧
      compiled.names = names ∧
      compiled.run (.point values) = .ok (.number (.real y)) ∧
      tree.evaluate (.ofDoubles mapping) = .ok (.number (.real y)) := by
  obtain ⟨code, number, coded, ran, evaluated, isReal⟩ :=
    Code.run_ofExpr compilable sampled.complete sampled.length maps
  obtain ⟨y, rfl⟩ := isReal named
  refine ⟨⟨tree, names, code⟩, y, ?_, rfl, ran, evaluated⟩
  rw [ofExpr_of_unique compilable.foreign?_eq_none sampled.unique, coded,
    Result.ok_bind]

end Compiled

end Symbolic
