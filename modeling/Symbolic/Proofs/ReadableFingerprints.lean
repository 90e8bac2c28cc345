import Symbolic.Proofs.Equality

/-!
# Trees read back from their fingerprints

A fingerprint lists operations and leaves without any mark between them.  If no
leaf is empty, starts like an operation or goes on where another leaf ends, the
list can be read in one way only: operations take two trees each, and leaves are
as long as they are.  Then the fingerprint determines the tree up to equality.
-/

namespace Symbolic
namespace Expr

/-- The leaves of the tree, from left to right. -/
def leaves : Expr -> List Expr
  | node _ left right => left.leaves ++ right.leaves
  | wrap inner => inner.leaves
  | e => [e]

/-- The ids of the operations of the tree. -/
def operationIds : Expr -> List Int
  | node operation left right =>
    operation.id :: (left.operationIds ++ right.operationIds)
  | wrap inner => inner.operationIds
  | _ => []

/-- The tokens of leaves can be told from each other and from ids wherever they
stand.  A leaf without tokens, such as a blank, cannot. -/
structure AreReadable (leaves : List Expr) (ids : List Int) : Prop where
  notEmpty : ∀ leaf ∈ leaves, leaf.tokens ≠ []
  noId : ∀ leaf ∈ leaves, ∀ id ∈ ids, leaf.tokens.head? ≠ some id
  noExtension : ∀ leaf ∈ leaves, ∀ other ∈ leaves,
    leaf.tokens <+: other.tokens ->
    leaf.tokens = other.tokens
  exact : ∀ leaf ∈ leaves, ∀ other ∈ leaves, leaf.tokens = other.tokens ->
    leaf.equal other = .ok true

/-- The leaves and the operations of the tree are among the given ones. -/
structure IsBuiltFrom (leaves : List Expr) (ids : List Int)
    (e : Expr) : Prop where
  leaves : e.leaves ⊆ leaves
  ids : e.operationIds ⊆ ids

section

variable {leaves : List Expr} {ids : List Int}

theorem isBuiltFrom_node_iff
    {operation : Operation}
    {left right : Expr} :
    (node operation left right).IsBuiltFrom leaves ids ↔
      operation.id ∈ ids ∧ left.IsBuiltFrom leaves ids ∧
        right.IsBuiltFrom leaves ids := by
  constructor
  · rintro ⟨inLeaves, inIds⟩
    obtain ⟨leftLeaves, rightLeaves⟩ := List.append_subset.1 inLeaves
    obtain ⟨isId, inIds⟩ := List.cons_subset.1 inIds
    obtain ⟨leftIds, rightIds⟩ := List.append_subset.1 inIds
    exact ⟨isId, ⟨leftLeaves, leftIds⟩, ⟨rightLeaves, rightIds⟩⟩
  · rintro ⟨isId, left, right⟩
    exact ⟨List.append_subset.2 ⟨left.leaves, right.leaves⟩,
      List.cons_subset.2 ⟨isId, List.append_subset.2 ⟨left.ids, right.ids⟩⟩⟩

theorem IsBuiltFrom.unwrapped
    {inner : Expr}
    (built : (wrap inner).IsBuiltFrom leaves ids) :
    inner.IsBuiltFrom leaves ids :=
  ⟨built.leaves, built.ids⟩

namespace AreReadable

variable (readable : AreReadable leaves ids)
include readable

/-- No leaf can be taken for an operation. -/
theorem leaf_ne_operation
    {leaf : Expr}
    (isLeaf : leaf ∈ leaves)
    {id : Int}
    (isId : id ∈ ids)
    (rest rest' : List Int) :
    leaf.tokens ++ rest ≠ id :: rest' := by
  intro same
  cases isTokens : leaf.tokens with
  | nil => exact readable.notEmpty leaf isLeaf isTokens
  | cons token tokens =>
    rw [isTokens, List.cons_append] at same
    obtain ⟨rfl, -⟩ := List.cons_eq_cons.1 same
    exact readable.noId leaf isLeaf token isId (by rw [isTokens]; rfl)

/-- No leaf can be taken for another one. -/
theorem leaf_eq_leaf
    {leaf other : Expr}
    (isLeaf : leaf ∈ leaves)
    (isLeaf' : other ∈ leaves)
    {rest rest' : List Int}
    (same : leaf.tokens ++ rest = other.tokens ++ rest') :
    leaf.equal other = .ok true ∧ rest = rest' := by
  have sameTokens : leaf.tokens = other.tokens := by
    have first : leaf.tokens <+: other.tokens ++ rest' := by
      rw [← same]
      exact List.prefix_append leaf.tokens rest
    rcases List.prefix_or_prefix_of_prefix first
      (List.prefix_append other.tokens rest') with shorter | longer
    · exact readable.noExtension leaf isLeaf other isLeaf' shorter
    · exact (readable.noExtension other isLeaf' leaf isLeaf longer).symm
  rw [sameTokens] at same
  exact ⟨readable.exact leaf isLeaf other isLeaf' sameTokens,
    List.append_cancel_left same⟩

/-- Two trees with the same tokens in front of something end at the same place
and are equal. -/
theorem equal_of_tokens_append
    {a b : Expr}
    (built : a.IsBuiltFrom leaves ids)
    (built' : b.IsBuiltFrom leaves ids)
    {rest rest' : List Int}
    (same : a.tokens ++ rest = b.tokens ++ rest') :
    a.equal b = .ok true ∧ rest = rest' := by
  induction a generalizing b rest rest' with
  | wrap inner inductive_step =>
    exact inductive_step built.unwrapped built' same
  | node operation left right leftStep rightStep =>
    obtain ⟨isId, leftBuilt, rightBuilt⟩ := isBuiltFrom_node_iff.1 built
    induction b with
    | wrap inner inductive_step =>
      rw [equal_wrap_right]
      exact inductive_step built'.unwrapped same
    | node operation' left' right' =>
      obtain ⟨-, leftBuilt', rightBuilt'⟩ := isBuiltFrom_node_iff.1 built'
      simp only [tokens_node, List.cons_append, List.append_assoc,
        List.cons.injEq] at same
      obtain ⟨sameId, same⟩ := same
      obtain ⟨leftEqual, sameRest⟩ := leftStep leftBuilt leftBuilt' same
      obtain ⟨rightEqual, sameEnd⟩ := rightStep rightBuilt rightBuilt' sameRest
      exact ⟨equal_of_equal_operands sameId leftEqual rightEqual, sameEnd⟩
    | _ =>
      exact absurd same.symm
        (readable.leaf_ne_operation (built'.leaves List.mem_cons_self) isId _ _)
  | _ =>
    have isLeaf := built.leaves List.mem_cons_self
    induction b with
    | wrap inner inductive_step =>
      rw [equal_wrap_right]
      exact inductive_step built'.unwrapped same
    | node operation' left' right' =>
      exact absurd same
        (readable.leaf_ne_operation isLeaf
          (isBuiltFrom_node_iff.1 built').1 _ _)
    | _ =>
      exact readable.leaf_eq_leaf isLeaf (built'.leaves List.mem_cons_self) same

/-- Foreign objects have no tokens. -/
theorem foreign?_eq_none
    {e : Expr}
    (built : e.IsBuiltFrom leaves ids) :
    e.foreign? = none := by
  induction e with
  | node operation left right leftStep rightStep =>
    obtain ⟨-, leftBuilt, rightBuilt⟩ := isBuiltFrom_node_iff.1 built
    rw [foreign?, leftStep leftBuilt, rightStep rightBuilt, Option.none_or]
  | wrap inner inductive_step => exact inductive_step built.unwrapped
  | foreign object =>
    exact absurd rfl (readable.notEmpty _ (built.leaves List.mem_cons_self))
  | _ => rfl

end AreReadable

end

/-- Fingerprints can be read in one way only if leaves cannot be confused: if no
leaf of two trees is without tokens, starts with the id of an operation of
theirs or starts like another leaf and goes on, and if leaves with the same
tokens are equal, then the trees have the same fingerprint exactly when they are
equal. -/
theorem fingerprint_eq_iff_equal
    {a b : Expr}
    (readable :
      AreReadable (a.leaves ++ b.leaves) (a.operationIds ++ b.operationIds)) :
    a.fingerprint = .ok a.tokens ∧ b.fingerprint = .ok b.tokens ∧
      (∃ isEqual, a.equal b = .ok isEqual) ∧
      (a.fingerprint = b.fingerprint ↔ a.equal b = .ok true) := by
  have built :
      a.IsBuiltFrom (a.leaves ++ b.leaves) (a.operationIds ++ b.operationIds) :=
    ⟨List.subset_append_left _ _, List.subset_append_left _ _⟩
  have built' :
      b.IsBuiltFrom (a.leaves ++ b.leaves) (a.operationIds ++ b.operationIds) :=
    ⟨List.subset_append_right _ _, List.subset_append_right _ _⟩
  have noForeign := readable.foreign?_eq_none built
  have noForeign' := readable.foreign?_eq_none built'
  have hashed := fingerprint_eq_ok a noForeign
  have hashed' := fingerprint_eq_ok b noForeign'
  refine ⟨hashed, hashed', exists_equal_eq_ok noForeign noForeign', ?_⟩
  rw [hashed, hashed', Except.ok.injEq]
  refine ⟨fun same => ?_, tokens_of_equal⟩
  have sameEnd : a.tokens ++ [] = b.tokens ++ [] := by rw [same]
  exact (readable.equal_of_tokens_append built built' sameEnd).1

/-- The same operations and leaves, grouped in two ways. -/
theorem fingerprint_eq_iff_equal_regrouped :
    let a : Expr :=
      .node .product (.node .sum (.var "x") (.var "rate")) (.int 7)
    let b : Expr :=
      .node .sum (.var "x") (.node .product (.var "rate") (.int 7))
    AreReadable (a.leaves ++ b.leaves) (a.operationIds ++ b.operationIds) ∧
      (∃ isEqual, a.equal b = .ok isEqual) ∧ a.equal b ≠ .ok true := by
  intro a b
  have readable :
      AreReadable (a.leaves ++ b.leaves) (a.operationIds ++ b.operationIds) :=
    { notEmpty := by simp [a, b, leaves, tokens]
      noId := by
        simp [a, b, leaves, operationIds, tokens, Number.token, Operation.sum,
          Operation.product]
      noExtension := by simp [a, b, leaves, tokens, Number.token]
      exact := by
        simp [a, b, leaves, tokens, Number.token, Expr.equal, unwrap] }
  obtain ⟨hashed, hashed', compared, determined⟩ :=
    fingerprint_eq_iff_equal readable
  refine ⟨readable, compared, fun equal => ?_⟩
  have same := determined.2 equal
  rw [hashed, hashed'] at same
  cases same

end Expr
end Symbolic
