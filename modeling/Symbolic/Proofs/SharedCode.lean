import Symbolic.Proofs.CompiledValue
import Symbolic.Proofs.Registration

/-!
# Code that is kept for equal trees

Equality compares operations by their ids.  Code that was made for one tree is
the code of every equal tree as long as the ids tell the operations of both
trees apart.  Then it makes no difference what was compiled before: the code
that is found is the code that would have been made, and a tree that is refused
is refused for the same reason.
-/

namespace Symbolic

/-- Different operations of the two trees have different ids. -/
def Expr.HaveUniqueIds (e e' : Expr) : Prop :=
  ∃ operations : List Operation, (operations.map Operation.id).Nodup ∧
    e.Over operations ∧ e'.Over operations

/-- The operations of one registry have different ids. -/
theorem Registry.Built.haveUniqueIds
    {registry : Registry}
    (built : registry.Built)
    {e e' : Expr}
    (isOver : e.Over registry.operations)
    (isOver' : e'.Over registry.operations) :
    e.HaveUniqueIds e' :=
  ⟨registry.operations, built.hasUniqueKeys.ids, isOver, isOver'⟩

/-- Equal trees over operations with different ids have the same code. -/
theorem Code.ofExpr_of_equal
    {operations : List Operation}
    (unique : (operations.map Operation.id).Nodup)
    {e e' : Expr}
    (isOver : e.Over operations)
    (isOver' : e'.Over operations)
    (equal : e.equal e' = .ok true)
    (names : List String) :
    ofExpr names e = ofExpr names e' := by
  have ignoresWrappers (e : Expr) : ofExpr names e.unwrap = ofExpr names e :=
    Expr.apply_unwrap (fun _ => rfl) e
  have sameOver (e : Expr) : e.unwrap.Over operations = e.Over operations :=
    Expr.apply_unwrap (fun _ => rfl) e
  induction e generalizing e' with
  | wrap inner inductive_step => exact inductive_step isOver isOver' equal
  | node operation left right leftStep rightStep =>
    obtain ⟨operation', left', right', unwrapped, sameId, leftEqual,
        rightEqual⟩ :=
      Expr.exists_node_of_equal equal
    rw [← sameOver, unwrapped] at isOver'
    obtain ⟨member', leftOver', rightOver'⟩ := isOver'
    obtain rfl : operation = operation' :=
      List.inj_on_of_nodup_map unique isOver.1 member' sameId
    rw [← ignoresWrappers e', unwrapped, ofExpr, ofExpr,
      leftStep isOver.2.1 leftOver' leftEqual,
      rightStep isOver.2.2 rightOver' rightEqual]
  | _ => rw [← ignoresWrappers e', Expr.unwrap_eq_of_equal rfl equal]

/-- Code serves the trees that are equal to its own, over its own ordering. -/
theorem KeptCode.serves_eq_true
    {kept : KeptCode}
    {names : List String}
    {tree : Expr} :
    kept.serves names tree = true ↔
      kept.tree.equal tree = .ok true ∧ kept.names = names := by
  unfold serves
  split
  · next isEqual compared => simp [compared]
  · next failure compared => simp [compared]

/-- Code of `x + y` serves a product that has the id of sums. -/
example :
    let product : Operation := { Operation.product with id := Operation.sum.id }
    let kept : KeptCode :=
      ⟨.node .sum (.var "x") (.var "y"), ["x", "y"],
        .apply .sum (.slot 0) (.slot 1)⟩
    kept.serves ["x", "y"] (.node product (.var "x") (.var "y")) = true := rfl

namespace CodeCache

/-- All code that is kept was made for one of the trees. -/
def IsMadeFor (cache : CodeCache) (trees : List Expr) : Prop :=
  ∀ kept ∈ cache, kept.tree ∈ trees ∧
    Code.ofExpr kept.names kept.tree = .ok kept.code

theorem IsMadeFor.mono
    {cache : CodeCache}
    {trees trees' : List Expr}
    (made : cache.IsMadeFor trees)
    (subset : ∀ tree ∈ trees, tree ∈ trees') :
    cache.IsMadeFor trees' :=
  fun kept member => (made kept member).imp_left (subset _)

/-- Code that is found is kept, for an equal tree over the same ordering. -/
theorem mem_of_found
    {cache : CodeCache}
    {names : List String}
    {tree : Expr}
    {kept : KeptCode}
    (found : cache.find? (·.serves names tree) = some kept) :
    kept ∈ cache ∧ kept.tree.equal tree = .ok true ∧ kept.names = names :=
  ⟨List.mem_of_find?_eq_some found,
    KeptCode.serves_eq_true.1 (List.find?_some found :)⟩

/-- Code that is found is the code that would be made. -/
theorem IsMadeFor.code_eq
    {cache : CodeCache}
    {trees : List Expr}
    (made : cache.IsMadeFor trees)
    {tree : Expr}
    (unique : ∀ earlier ∈ trees, earlier.equal tree = .ok true ->
      earlier.HaveUniqueIds tree)
    (names : List String) :
    Prod.fst <$> cache.code names tree = Code.ofExpr names tree := by
  cases found : cache.find? (·.serves names tree) with
  | none =>
    simp only [code, found]
    cases Code.ofExpr names tree <;> rfl
  | some kept =>
    obtain ⟨isKept, equal, rfl⟩ := mem_of_found found
    obtain ⟨member, isCode⟩ := made kept isKept
    obtain ⟨operations, unique, isOver, isOver'⟩ :=
      unique kept.tree member equal
    simp only [code, found]
    rw [← Code.ofExpr_of_equal unique isOver isOver' equal, isCode]
    rfl

/-- Code that is kept in addition was made for the tree that is compiled. -/
theorem IsMadeFor.after_code
    {cache after : CodeCache}
    {trees : List Expr}
    (made : cache.IsMadeFor trees)
    {names : List String}
    {tree : Expr}
    {found : Code}
    (returned : cache.code names tree = .ok (found, after)) :
    after.IsMadeFor (tree :: trees) := by
  have earlier : cache.IsMadeFor (tree :: trees) :=
    made.mono fun _ => List.mem_cons_of_mem tree
  unfold code at returned
  split at returned
  · next kept served =>
    cases returned
    intro other member
    rcases List.mem_cons.1 member with rfl | remaining
    · exact earlier other (mem_of_found served).1
    · exact earlier other (List.mem_of_mem_eraseP remaining)
  · obtain ⟨new, isCode, returned⟩ := Result.bind_eq_ok.1 returned
    cases returned
    intro other member
    rcases List.mem_cons.1 (List.mem_of_mem_take member) with rfl | remaining
    · exact ⟨List.mem_cons_self, isCode⟩
    · exact earlier other remaining

/-- A full cache stays as long as it is. -/
theorem length_after_code
    {cache after : CodeCache}
    (small : cache.length ≤ capacity)
    {names : List String}
    {tree : Expr}
    {found : Code}
    (returned : cache.code names tree = .ok (found, after)) :
    after.length ≤ capacity := by
  unfold code at returned
  split at returned
  · next kept served =>
    cases returned
    have member := (mem_of_found served).1
    have shorter := List.length_eraseP_of_mem member (List.find?_some served)
    have positive := List.length_pos_of_mem member
    rw [List.length_cons]
    omega
  · obtain ⟨new, isCode, returned⟩ := Result.bind_eq_ok.1 returned
    cases returned
    exact List.length_take_le _ _

end CodeCache

namespace Compiled

/-- What is kept after a tree was compiled was kept before or was returned with
its code. -/
theorem keep_cases (cache : CodeCache) (request : Request) :
    keep cache request = cache ∨
      ∃ names found, cache.code names request.tree =
        .ok (found, keep cache request) := by
  obtain ⟨names?, tree⟩ := request
  have ofNames (names : List String) (after : CodeCache) (compiled : Compiled)
      (returned : ofExprWith cache (some names) tree = .ok (compiled, after)) :
      ∃ found, cache.code names tree = .ok (found, after) := by
    rw [ofExprWith_some] at returned
    split at returned
    · obtain ⟨_, -, returned⟩ := Result.bind_eq_ok.1 returned
      obtain ⟨⟨found, after'⟩, coded, returned⟩ := Result.bind_eq_ok.1 returned
      cases returned
      exact ⟨found, coded⟩
    · cases returned
  cases returned : ofExprWith cache names? tree with
  | error failure => exact .inl (by rw [keep, returned])
  | ok result =>
    obtain ⟨compiled, after⟩ := result
    have isKept : keep cache ⟨names?, tree⟩ = after := by rw [keep, returned]
    rw [isKept]
    cases names? with
    | some names => exact .inr ⟨names, ofNames names after compiled returned⟩
    | none =>
      obtain ⟨names, -, returned⟩ := Result.bind_eq_ok.1 returned
      exact .inr ⟨names, ofNames names after compiled returned⟩

/-- A request adds at most code of its own tree. -/
theorem isMadeFor_keep
    {cache : CodeCache}
    {trees : List Expr}
    (made : cache.IsMadeFor trees)
    (request : Request) :
    (keep cache request).IsMadeFor (request.tree :: trees) := by
  rcases keep_cases cache request with same | ⟨names, found, returned⟩
  · rw [same]
    exact made.mono fun _ => List.mem_cons_of_mem request.tree
  · exact made.after_code returned

/-- After any requests the code that is kept was made for trees of theirs. -/
theorem isMadeFor_keptAfter (requests : List Request) :
    (keptAfter requests).IsMadeFor (requests.map Request.tree) := by
  have step (requests : List Request) (cache : CodeCache) (trees : List Expr)
      (made : cache.IsMadeFor trees) :
      (requests.foldl keep cache).IsMadeFor
        (requests.map Request.tree ++ trees) := by
    induction requests generalizing cache trees with
    | nil => exact made
    | cons request rest inductive_step =>
      refine (inductive_step _ _ (isMadeFor_keep made request)).mono
        fun tree member => ?_
      simpa [or_left_comm, or_assoc] using member
  have made :=
    step requests [] [] fun kept member => absurd member List.not_mem_nil
  rwa [List.append_nil] at made

/-- No more code is kept than fits. -/
theorem length_keptAfter (requests : List Request) :
    (keptAfter requests).length ≤ CodeCache.capacity := by
  have empty : ([] : CodeCache).length ≤ CodeCache.capacity := Nat.zero_le _
  refine List.foldlRecOn (motive :=
    fun cache => cache.length ≤ CodeCache.capacity)
    requests keep empty fun cache small request _ => ?_
  rcases keep_cases cache request with same | ⟨names, found, returned⟩
  · rw [same]
    exact small
  · exact CodeCache.length_after_code small returned

/-! ## Compiling after other trees -/

/-- What was compiled before makes no difference to a tree, refusals included,
as long as no equal tree has another operation under one of its ids. -/
theorem ofExprWith_keptAfter
    {tree : Expr}
    {requests : List Request}
    (unique : ∀ request ∈ requests, request.tree.equal tree = .ok true ->
      request.tree.HaveUniqueIds tree)
    (names? : Option (List String)) :
    Prod.fst <$> ofExprWith (keptAfter requests) names? tree =
      ofExpr names? tree := by
  have sameCode (names : List String) :
      Prod.fst <$> (keptAfter requests).code names tree =
        Code.ofExpr names tree := by
    refine (isMadeFor_keptAfter requests).code_eq
      (fun earlier member => ?_) names
    obtain ⟨request, asked, rfl⟩ := List.mem_map.1 member
    exact unique request asked
  have sameOver (names : List String) :
      Prod.fst <$> ofExprWith (keptAfter requests) (some names) tree =
        ofExpr (some names) tree := by
    rw [ofExpr_some, ofExprWith_some, apply_ite (Prod.fst <$> ·), ← sameCode]
    congr 1
    cases checkOperand tree with
    | error failure => rfl
    | ok _ => cases (keptAfter requests).code names tree <;> rfl
  cases names? with
  | some names => exact sameOver names
  | none =>
    rw [ofExpr, ofExprWith_none, ofExprWith_none]
    cases tree.askVariableNames with
    | error failure => rfl
    | ok names => exact sameOver names

/-- A tree in which every node has a variable has one value, however it is
computed: by evaluation of the tree, and, over every ordering of its variables,
by its code on the values in that order or on the mapping that belongs to them.
The code may have been made for an equal tree, as long as that one has no other
operation under one of the ids. -/
theorem run_eq_evaluate
    {tree : Expr}
    (compilable : tree.IsCompilable)
    (named : tree.names ≠ [])
    {names : List String}
    {values : List Float}
    (sampled : tree.IsSampledBy names values) :
    ∃ y, tree.evaluate (.ofDoubles (valueAt names values)) =
      .ok (.number (.real y)) ∧
      ∀ names' values', tree.IsSampledBy names' values' ->
        (∀ name ∈ tree.names, valueAt names' values' name =
          valueAt names values name) ->
        ∀ requests : List Request,
          (∀ request ∈ requests, request.tree.equal tree = .ok true ->
            request.tree.HaveUniqueIds tree) ->
          ∃ compiled cache,
            ofExprWith (keptAfter requests) (some names') tree =
              .ok (compiled, cache) ∧
              compiled.run (.point values') = .ok (.number (.real y)) ∧
              compiled.runNamed (valueAt names' values') =
                .ok (.number (.real y)) := by
  obtain ⟨-, y, -, -, -, evaluated⟩ :=
    exists_run_eq_evaluate compilable named sampled fun _ _ => rfl
  refine ⟨y, evaluated, fun names' values' sampled' agree requests unique => ?_⟩
  obtain ⟨compiled, y', isCompiled, isNames, ran, evaluated'⟩ :=
    exists_run_eq_evaluate compilable named sampled' fun name member =>
      (agree name member).symm
  obtain rfl : y = y' := by
    rw [evaluated] at evaluated'
    cases evaluated'
    rfl
  rw [← ofExprWith_keptAfter unique] at isCompiled
  cases returned : ofExprWith (keptAfter requests) (some names') tree with
  | error failure =>
    rw [returned] at isCompiled
    cases isCompiled
  | ok result =>
    obtain ⟨found, cache⟩ := result
    rw [returned] at isCompiled
    obtain rfl : found = compiled := Except.ok.inj isCompiled
    refine ⟨found, cache, rfl, ran, ?_⟩
    rw [runNamed, isNames, valuesOf_valueAt sampled'.unique sampled'.length]
    exact ran

/-- The value of `x - 2*y`, by code over the other order of its variables that
is kept since the tree was compiled in a wrapper. -/
theorem run_eq_evaluate_difference :
    let tree : Expr :=
      .node .difference (.var "x") (.node .product (.int 2) (.var "y"))
    let requests : List Request :=
      [⟨some ["x", "y"], .node .sum (.var "x") (.var "y")⟩,
        ⟨some ["y", "x"], .wrap tree⟩]
    tree.IsCompilable ∧ tree.names ≠ [] ∧
      tree.IsSampledBy ["x", "y"] [3.0, 0.25] ∧
        tree.IsSampledBy ["y", "x"] [0.25, 3.0] ∧
      (∀ name ∈ tree.names,
        valueAt ["y", "x"] [0.25, 3.0] name =
          valueAt ["x", "y"] [3.0, 0.25] name) ∧
      (∀ request ∈ requests, request.tree.equal tree = .ok true ->
        request.tree.HaveUniqueIds tree) ∧
      ((keptAfter requests).find? (·.serves ["y", "x"] tree)).isSome = true ∧
      ∃ y, tree.evaluate (.ofDoubles (valueAt ["x", "y"] [3.0, 0.25])) =
          .ok (.number (.real y)) ∧
        ∃ compiled cache,
          ofExprWith (keptAfter requests) (some ["y", "x"]) tree =
            .ok (compiled, cache) ∧
            compiled.run (.point [0.25, 3.0]) = .ok (.number (.real y)) ∧
            compiled.runNamed (valueAt ["y", "x"] [0.25, 3.0]) =
              .ok (.number (.real y)) := by
  intro tree requests
  have small : (2 : Int).natAbs < 2 ^ 64 := by decide
  have compilable : tree.IsCompilable :=
    ⟨by simp, trivial, by simp, small, trivial⟩
  have named : tree.names ≠ [] := by simp [tree]
  have complete : ∀ name ∈ ["x", "y"], name ∈ ["x", "y"] :=
    fun _ member => member
  have complete' : ∀ name ∈ ["x", "y"], name ∈ ["y", "x"] := by simp
  have sampled : tree.IsSampledBy ["x", "y"] [3.0, 0.25] :=
    ⟨by decide, complete, rfl⟩
  have sampled' : tree.IsSampledBy ["y", "x"] [0.25, 3.0] :=
    ⟨by decide, complete', rfl⟩
  have agree : ∀ name ∈ tree.names,
      valueAt ["y", "x"] [0.25, 3.0] name =
        valueAt ["x", "y"] [3.0, 0.25] name := by
    have atBoth : ∀ name ∈ ["x", "y"],
        valueAt ["y", "x"] [0.25, 3.0] name =
          valueAt ["x", "y"] [3.0, 0.25] name := by
      rw [List.forall_mem_cons, List.forall_mem_singleton]
      exact ⟨rfl, rfl⟩
    exact atBoth
  have unique : ∀ request ∈ requests, request.tree.equal tree = .ok true ->
      request.tree.HaveUniqueIds tree := by
    have isOver : tree.Over Registry.standard.operations := by
      simp [tree, Expr.Over, Registry.standard, Operation.arithmetic]
    rw [List.forall_mem_cons, List.forall_mem_singleton]
    refine ⟨fun equal => ?_, fun _ => ?_⟩
    · cases equal
    · exact Registry.built_standard.haveUniqueIds isOver isOver
  have distinct : repeatedNames ["x", "y"] = [] :=
    repeatedNames_eq_nil sampled.unique
  have distinct' : repeatedNames ["y", "x"] = [] :=
    repeatedNames_eq_nil sampled'.unique
  have isKept : ((keptAfter requests).find? (·.serves ["y", "x"] tree)).isSome =
      true := by
    simp only [requests, keptAfter, List.foldl_cons, List.foldl_nil, keep,
      ofExprWith_some, distinct, distinct']
    rfl
  obtain ⟨y, evaluated, runs⟩ := run_eq_evaluate compilable named sampled
  exact ⟨compilable, named, sampled, sampled', agree, unique, isKept, y,
    evaluated, runs _ _ sampled' agree requests unique⟩

end Compiled
end Symbolic
