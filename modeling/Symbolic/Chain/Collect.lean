import Symbolic.Chain.Multiple

/-!
# Collecting repeated terms

The terms of a chain are ordered by the length of their fingerprints.  Then each
term in turn collects all later terms that repeat it, and the multiples are
added up to its coefficient.  A term with coefficient zero vanishes, one with
coefficient one stays as it is, and any other becomes a node with its
coefficient.
-/

namespace Symbolic

/-- The operation that stands for repeated terms of the given one; without such
a rule, the operation itself. -/
def promote (registry : Registry) (operation : Operation) : Work Operation :=
  match registry.promotion? operation with
  | some promoted => return promoted
  | none => do
    Work.note (.noPromotion operation.symbol)
    return operation

/-- The identity element of an operation. -/
def identity (registry : Registry) (operation : Operation) :
    Work (Option Expr) :=
  match registry.identity? operation with
  | some value => return some value
  | none => do
    Work.note (.noIdentity operation.symbol)
    return none

/-- Insert a term in front of the first one whose fingerprint is not shorter. -/
def insertByLength (term : Expr) : List Expr -> List Expr
  | [] => [term]
  | other :: rest =>
    if term.tokens.length ≤ other.tokens.length then term :: other :: rest
    else other :: insertByLength term rest

/-- The terms ordered by the length of their fingerprints; terms of one length
keep their order.  A foreign object in one of them has no fingerprint. -/
def orderByLength (terms : List Expr) : Result (List Expr) :=
  match terms.findSome? Expr.foreign? with
  | some object => .error (.unknownOperand .fingerprinting object)
  | none => .ok (terms.foldr insertByLength [])

/-- How terms of one chain are collected: the operation for repeated terms, and
the one that adds up multiples. -/
structure Collection where
  promoted : Operation
  additive : Operation

/-- Collect the terms that repeat `term`, starting from a coefficient.  The
result is the coefficient and the terms that were left. -/
def sweep
    (settings : Settings)
    (recursion : Recursion)
    (collection : Collection)
    (term coefficient : Expr) :
    (later : List Expr) ->
      Work (Expr × { left : List Expr // left.length ≤ later.length })
  | [] => return (coefficient, ⟨[], Nat.le_refl _⟩)
  | other :: rest => do
    match ← multiple settings recursion collection.promoted term other with
    | none =>
      let (total, ⟨left, bound⟩) ←
        sweep settings recursion collection term coefficient rest
      return (total, ⟨other :: left, Nat.succ_le_succ bound⟩)
    | some factor =>
      let increased ← collection.additive.join coefficient factor
      let (total, ⟨left, bound⟩) ←
        sweep settings recursion collection term increased rest
      return (total, ⟨left, Nat.le_succ_of_le bound⟩)

/-- A term with its coefficient, or nothing. -/
def scaled (promoted : Operation) (term coefficient : Expr) : List Expr :=
  if coefficient.isZero then []
  else if coefficient.isOne then [term]
  else [.node promoted term coefficient]

/-- Collect ordered terms. -/
def collectOrdered
    (settings : Settings)
    (recursion : Recursion)
    (collection : Collection)
    (terms : List Expr) : Work (List Expr) :=
  match terms with
  | [] => return []
  | term :: later => do
    let (coefficient, ⟨left, _⟩) ←
      sweep settings recursion collection term (.int 1) later
    let others ← collectOrdered settings recursion collection left
    return scaled collection.promoted term coefficient ++ others
termination_by terms.length
decreasing_by
  simp only [List.length_cons]
  omega

/-- Collect the repeated terms of a chain of `focus`.  If every term vanishes,
the identity element is what is left. -/
def collect
    (settings : Settings)
    (recursion : Recursion)
    (focus : Operation)
    (terms : List Expr) : Work (List Expr) := do
  if terms.isEmpty then
    throw .nothingToCollect
  let promoted ← promote settings.registry focus
  match settings.registry.additive with
  | none => return terms
  | some additive =>
    if promoted.id = focus.id then
      return terms
    else
      let ordered ← orderByLength terms
      let collected ←
        collectOrdered settings recursion ⟨promoted, additive⟩ ordered
      let remaining ←
        if collected.isEmpty then
          (·.toList) <$> identity settings.registry focus
        else pure collected
      Work.note (.collected terms.length remaining.length)
      return remaining

end Symbolic
