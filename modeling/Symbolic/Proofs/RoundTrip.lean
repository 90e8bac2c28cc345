import Symbolic.Proofs.ParsedTrees
import Symbolic.Proofs.PrintedPieces
import Symbolic.Proofs.Registration

/-!
# Printed trees are parsed back

The printer puts an operand between parentheses exactly where the parser would
group it differently.  So the pieces of a printed tree are parsed as the tree
without its wrappers, whatever follows, as long as an operator that follows
binds less strongly than the right operand of the tree's own operation.  This
depends on what the numbers of the tree are read as, which need not be the
numbers themselves: the words for infinite and undefined doubles are read as
variables.
-/

namespace Symbolic

/-- Operations of the same precedence group to the same side. -/
def Registry.AgreesOnSides (registry : Registry) : Prop :=
  ∀ operation ∈ registry.operations, ∀ other ∈ registry.operations,
    operation.precedence = other.precedence ->
      operation.isRightAssociative = other.isRightAssociative

theorem Registry.agreesOnSides_standard : Registry.standard.AgreesOnSides := by
  unfold AgreesOnSides
  decide

/-- The standard symbols are single operator characters. -/
theorem Registry.hasPlainSymbol_standard
    (operation : Operation)
    (member : operation ∈ Registry.standard.operations) :
    operation.HasPlainSymbol := by
  simp only [standard, Operation.arithmetic, List.mem_cons, List.not_mem_nil,
    or_false] at member
  rcases member with rfl | rfl | rfl | rfl | rfl
  · exact ⟨'+', rfl, by decide⟩
  · exact ⟨'-', rfl, by decide⟩
  · exact ⟨'*', rfl, by decide⟩
  · exact ⟨'/', rfl, by decide⟩
  · exact ⟨'^', rfl, by decide⟩

theorem Precedence.eq_of_level_eq
    {left right : Precedence}
    (same : left.level = right.level) :
    left = right := by
  cases left <;> cases right <;> first | rfl | exact absurd same (by decide)

namespace Parse

theorem level_le_rightMinimum (operation : Operation) :
    operation.precedence.level ≤ rightMinimum operation := by
  unfold rightMinimum
  split <;> omega

/-- Behind a left operand without parentheses stands the end of its
operators. -/
theorem level_lt_rightMinimum_of_left
    {registry : Registry}
    (agrees : registry.AgreesOnSides)
    {parent child : Operation}
    (isParent : parent ∈ registry.operations)
    (isChild : child ∈ registry.operations)
    (unprotected : Expr.isEnclosed parent child false = false) :
    parent.precedence.level ≤ child.precedence.level ∧
      parent.precedence.level < rightMinimum child := by
  have above := level_le_rightMinimum child
  unfold Expr.isEnclosed at unprotected
  split at unprotected
  · cases unprotected
  · split at unprotected
    · omega
    · have same : parent.precedence.level = child.precedence.level := by omega
      have side : parent.isRightAssociative = false := by
        simpa using unprotected
      rw [agrees parent isParent child isChild (Precedence.eq_of_level_eq same)]
        at side
      rw [rightMinimum, side]
      simp only [Bool.false_eq_true, if_false]
      omega

/-- A right operand without parentheses binds strongly enough. -/
theorem rightMinimum_le_level_of_right
    {parent child : Operation}
    (unprotected : Expr.isEnclosed parent child true = false) :
    rightMinimum parent ≤ child.precedence.level := by
  unfold Expr.isEnclosed at unprotected
  unfold rightMinimum
  split at unprotected
  · cases unprotected
  · split at unprotected
    · split <;> omega
    · have side : parent.isRightAssociative = true := by simpa using unprotected
      rw [if_pos side]
      omega

end Parse

namespace Expr

/-- The operation at the root, under all wrappers. -/
def rootOperation? : Expr -> Option Operation
  | node operation _ _ => some operation
  | wrap inner => inner.rootOperation?
  | _ => none

/-- The operation at the root decides on the parentheses around an operand. -/
theorem isBracketed_of_rootOperation?
    {e : Expr}
    {parent operation : Operation}
    {isRight : Bool}
    (isRoot : e.rootOperation? = some operation) :
    e.isBracketed parent isRight = isEnclosed parent operation isRight := by
  induction e with
  | node other left right => cases isRoot; rfl
  | wrap inner inductive_step => exact inductive_step isRoot
  | _ => cases isRoot

/-- The tree is a number less than zero, under all wrappers. -/
def isNegative : Expr -> Bool
  | const value => value.isNegative
  | wrap inner => inner.isNegative
  | _ => false

/-- Negative numbers stand between parentheses as operands. -/
theorem isBracketed_of_isNegative
    {e : Expr}
    (negative : e.isNegative = true)
    (parent : Operation)
    (isRight : Bool) :
    e.isBracketed parent isRight = true := by
  induction e with
  | const value => exact negative
  | wrap inner inductive_step => exact inductive_step negative
  | _ => cases negative

/-- The tree with its numbers replaced. -/
def mapNumbers (f : Number -> Expr) : Expr -> Expr
  | const value => f value
  | node operation left right =>
    node operation (left.mapNumbers f) (right.mapNumbers f)
  | wrap inner => wrap (inner.mapNumbers f)
  | e => e

theorem mapNumbers_const (e : Expr) : e.mapNumbers const = e := by
  induction e with
  | node operation left right leftStep rightStep =>
    rw [mapNumbers, leftStep, rightStep]
  | wrap inner inductive_step => rw [mapNumbers, inductive_step]
  | _ => rfl

/-- The tree may stand without parentheses in front of `rest`, where operators
are read that bind at least with the precedence `minimum`.  In front of a power
no negative number may. -/
structure FitsBefore
    (registry : Registry)
    (minimum : Nat)
    (rest : List Token)
    (e : Expr) : Prop where
  operators : ∀ operation, e.rootOperation? = some operation ->
    minimum ≤ operation.precedence.level ∧
      Parse.EndsAt registry (Parse.rightMinimum operation) rest
  powers : e.isNegative = true -> Parse.NoPower registry rest

/-- A tree fits in front of a token that is no operator. -/
theorem fitsBefore_of_noOperator
    {registry : Registry}
    {token : Token}
    (noOperator : token.kind ≠ .operator)
    (rest : List Token)
    (e : Expr) :
    e.FitsBefore registry 0 (token :: rest) where
  operators := by
    refine fun operation _ => ⟨Nat.zero_le _, ?_⟩
    intro symbol position behind isFirst
    cases isFirst
    exact absurd rfl noOperator
  powers := by
    rintro - exponential position behind - isFirst
    cases isFirst
    exact absurd rfl noOperator

/-- The pieces in front of `rest` are read as the stripped tree. -/
def IsReadFrom
    (registry : Registry)
    (pieces : List (TokenKind × String))
    (minimum : Nat)
    (rest : List Token)
    (e : Expr) : Prop :=
  ∀ tokens, tokens.map Token.piece = pieces ->
    Parse.plainExpression registry minimum (tokens ++ rest) =
      Parse.plainOperators registry minimum e.stripped rest

variable {registry : Registry}

/-- What stands between parentheses is read whatever surrounds them. -/
theorem isReadFrom_enclosed
    {pieces : List (TokenKind × String)}
    {rest : List Token}
    {e : Expr}
    (reads : ∀ position,
      e.IsReadFrom registry pieces 0 (⟨.closing, ")", position⟩ :: rest))
    (minimum : Nat) :
    e.IsReadFrom registry (enclosed pieces) minimum rest := by
  intro tokens spelled
  obtain ⟨position, behind, rfl, spelledBehind⟩ := exists_of_pieces_cons spelled
  obtain ⟨inner, last, rfl, spelledInner, spelledLast⟩ :=
    List.map_eq_append_iff.1 spelledBehind
  obtain ⟨position', rfl⟩ := exists_of_pieces_singleton spelledLast
  have ends : Parse.EndsAt registry 0 (⟨.closing, ")", position'⟩ :: rest) := by
    intro symbol position behind isFirst
    cases isFirst
  have readInner := reads position' inner spelledInner
  rw [ends.plainOperators] at readInner
  rw [Parse.plainExpression_eq, List.cons_append,
    Parse.plainUnary_other registry (by simp),
    Parse.plainPrimary_opening, List.append_assoc, List.singleton_append,
      readInner]
  rfl

/-- If the pieces of a tree are read as another tree where it fits, then so they
are in an operand of any parent that it fits under. -/
theorem isReadFrom_operand
    {e e' : Expr}
    (reads : ∀ minimum rest, e.FitsBefore registry minimum rest ->
      e'.IsReadFrom registry (e.pieces none false) minimum rest)
    {parent : Operation}
    {isRight : Bool}
    {minimum : Nat}
    {rest : List Token}
    (fits : e.isBracketed parent isRight = false ->
      e.FitsBefore registry minimum rest) :
    e'.IsReadFrom registry (e.pieces (some parent) isRight) minimum rest := by
  rw [pieces_some]
  split
  · apply isReadFrom_enclosed
    intro position
    exact reads 0 _ (fitsBefore_of_noOperator (by simp) rest e)
  · next unprotected =>
      exact reads minimum rest (fits (by simpa using unprotected))

/-- The root of a tree over some operations is one of them. -/
theorem Over.mem_of_rootOperation?
    {operations : List Operation}
    {e : Expr}
    (isOver : e.Over operations)
    {operation : Operation}
    (isRoot : e.rootOperation? = some operation) :
    operation ∈ operations := by
  induction e with
  | node other left right =>
    cases isRoot
    exact isOver.1
  | wrap inner inductive_step => exact inductive_step isOver isRoot
  | _ => cases isRoot

section Fitting

variable {operation : Operation} {minimum : Nat} {rest : List Token}

/-- An unprotected left operand fits in front of the operator of its parent. -/
theorem FitsBefore.left
    (unique : registry.HasUniqueKeys)
    (agrees : registry.AgreesOnSides)
    (member : operation ∈ registry.operations)
    (atMost : minimum ≤ operation.precedence.level)
    {left : Expr}
    (isOver : left.Over registry.operations)
    (unprotected : left.isBracketed operation false = false)
    (position : Nat) :
    left.FitsBefore registry minimum
      (⟨.operator, operation.symbol, position⟩ :: rest) where
  operators := by
    intro child isRoot
    rw [isBracketed_of_rootOperation? isRoot] at unprotected
    obtain ⟨notBelow, above⟩ :=
      Parse.level_lt_rightMinimum_of_left agrees member
      (isOver.mem_of_rootOperation? isRoot) unprotected
    refine ⟨by omega, ?_⟩
    intro symbol position' behind isFirst
    cases isFirst
    exact ⟨operation, unique.bySymbol?_symbol member, above⟩
  powers := by
    intro negative
    rw [isBracketed_of_isNegative negative] at unprotected
    cases unprotected

/-- An unprotected right operand fits where its parent ends. -/
theorem FitsBefore.right
    (ends : Parse.EndsAt registry (Parse.rightMinimum operation) rest)
    {right : Expr}
    (unprotected : right.isBracketed operation true = false) :
    right.FitsBefore registry (Parse.rightMinimum operation) rest where
  operators := by
    intro child isRoot
    rw [isBracketed_of_rootOperation? isRoot] at unprotected
    have strong := Parse.rightMinimum_le_level_of_right unprotected
    exact ⟨strong, ends.mono
      (Nat.le_trans strong (Parse.level_le_rightMinimum child))⟩
  powers := by
    intro negative
    rw [isBracketed_of_isNegative negative] at unprotected
    cases unprotected

end Fitting

/-- The pieces of a number of a given kind are read as the tree that `f` gives,
unless the number is negative and a power follows. -/
def ReadsNumbers (registry : Registry) (numbers : Number -> Prop) (f : Number ->
    Expr) : Prop :=
  ∀ value rest tokens, numbers value ->
    (value.isNegative = true -> Parse.NoPower registry rest) ->
    tokens.map Token.piece = value.pieces ->
      Parse.plainUnary registry (tokens ++ rest) =
        .ok ((f value).stripped, rest)

theorem readsNumbers_readable (registry : Registry) :
    ReadsNumbers registry Number.IsReadable const :=
  fun _ rest _ readable _ spelled =>
    Number.plainUnary_pieces registry readable spelled rest

/-! ## Reading the pieces of one node -/

theorem isReadFrom_const
    {numbers : Number -> Prop}
    {f : Number -> Expr}
    (readsNumbers : ReadsNumbers registry numbers f)
    {value : Number}
    (isNumber : numbers value)
    {rest : List Token}
    (noPower : value.isNegative = true -> Parse.NoPower registry rest)
    (minimum : Nat) :
    (f value).IsReadFrom registry value.pieces minimum rest := by
  intro tokens spelled
  rw [Parse.plainExpression_eq,
    readsNumbers value rest tokens isNumber noPower spelled]
  rfl

theorem isReadFrom_var (name : String) (minimum : Nat) (rest : List Token) :
    (var name).IsReadFrom registry [(.identifier, name)] minimum rest := by
  intro tokens spelled
  obtain ⟨position, rfl⟩ := exists_of_pieces_singleton spelled
  rw [Parse.plainExpression_eq, List.singleton_append,
    Parse.plainUnary_other registry (by simp), Parse.plainPrimary_identifier]
  rfl

/-- Two operands around an operator are read as a node if the left one is read
in front of the operator, and the right one where the operators of the node
end. -/
theorem isReadFrom_node
    {operation : Operation}
    (found : registry.bySymbol? operation.symbol = some operation)
    {minimum : Nat}
    (atMost : minimum ≤ operation.precedence.level)
    {rest : List Token}
    (ends : Parse.EndsAt registry (Parse.rightMinimum operation) rest)
    {left right : Expr}
    {leftPieces rightPieces : List (TokenKind × String)}
    (readsLeft : ∀ position behind, left.IsReadFrom registry leftPieces minimum
      (⟨.operator, operation.symbol, position⟩ :: behind))
    (readsRight : right.IsReadFrom registry rightPieces
      (Parse.rightMinimum operation) rest) :
    (node operation left right).IsReadFrom registry
      (leftPieces ++ (.operator, operation.symbol) :: rightPieces) minimum
        rest := by
  intro tokens spelled
  obtain ⟨leftTokens, behind, rfl, spelledLeft, spelledBehind⟩ :=
    List.map_eq_append_iff.1 spelled
  obtain ⟨position, rightTokens, rfl, spelledRight⟩ :=
    exists_of_pieces_cons spelledBehind
  rw [List.append_assoc, List.cons_append,
    readsLeft position _ leftTokens spelledLeft,
    Parse.plainOperators_operator, found]
  dsimp only
  rw [if_neg (by omega), readsRight rightTokens spelledRight,
    ends.plainOperators]
  rfl

/-- The pieces of a tree are parsed as the stripped tree with its numbers read,
where it fits.  The left operand of a node ends in front of the operator, which
binds at least as strongly as everything that may be read there. -/
theorem isReadFrom_pieces
    (unique : registry.HasUniqueKeys)
    (agrees : registry.AgreesOnSides)
    {numbers : Number -> Prop}
    {f : Number -> Expr}
    (readsNumbers : ReadsNumbers registry numbers f)
    {e : Expr}
    (isOver : e.Over registry.operations)
    (scannable : e.IsScannable numbers)
    (minimum : Nat)
    (rest : List Token)
    (fits : e.FitsBefore registry minimum rest) :
    (e.mapNumbers f).IsReadFrom registry (e.pieces none false) minimum
      rest := by
  induction e generalizing minimum rest with
  | const value =>
    exact isReadFrom_const readsNumbers scannable fits.powers minimum
  | var name => exact isReadFrom_var name minimum rest
  | node operation left right leftStep rightStep =>
    obtain ⟨member, overLeft, overRight⟩ := isOver
    obtain ⟨atMost, ends⟩ := fits.operators operation rfl
    refine isReadFrom_node (unique.bySymbol?_symbol member) atMost ends ?_ ?_
    · intro position behind
      apply isReadFrom_operand (leftStep overLeft scannable.1)
      intro unprotected
      exact FitsBefore.left unique agrees member atMost overLeft unprotected
        position
    · apply isReadFrom_operand (rightStep overRight scannable.2)
      exact FitsBefore.right ends
  | wrap inner inductive_step =>
    exact inductive_step isOver scannable minimum rest
      ⟨fits.operators, fits.powers⟩
  | blank => exact scannable.elim
  | foreign object => exact scannable.elim

/-- A text is parsed as the stripped tree that its pieces are read as in front
of the end of the input. -/
theorem parse_of_isReadFrom
    {text : String}
    {tokens : List Token}
    {position : Nat}
    (scanned : Token.scan text = .ok (tokens ++ [⟨.endOfInput, "", position⟩]))
    {e : Expr}
    (reads : e.IsReadFrom registry (tokens.map Token.piece) 0
      [⟨.endOfInput, "", position⟩]) :
    parse registry text = .ok e.stripped := by
  have ends : Parse.EndsAt registry 0 [⟨.endOfInput, "", position⟩] := by
    intro symbol position' behind isFirst
    cases isFirst
  rw [parse, scanned, Result.ok_bind, Parse.tokens_eq, reads tokens rfl,
    ends.plainOperators]
  rfl

/-- The text of a tree is parsed as the stripped tree with its numbers read. -/
theorem parse_text
    (unique : registry.HasUniqueKeys)
    (agrees : registry.AgreesOnSides)
    (plain : ∀ operation ∈ registry.operations, operation.HasPlainSymbol)
    {numbers : Number -> Prop}
    {f : Number -> Expr}
    (readsNumbers : ReadsNumbers registry numbers f)
    {e : Expr}
    (isOver : e.Over registry.operations)
    (scannable : e.IsScannable numbers) :
    parse registry e.text = .ok (e.mapNumbers f).stripped := by
  obtain ⟨tokens, position, scanned, spelled⟩ :=
    scan_text plain isOver scannable
  have fits : e.FitsBefore registry 0 [⟨.endOfInput, "", position⟩] :=
    fitsBefore_of_noOperator (by simp) [] e
  have reads :=
    isReadFrom_pieces unique agrees readsNumbers isOver scannable 0 _ fits
  rw [← spelled] at reads
  exact parse_of_isReadFrom scanned reads

/-- A tree that can be scanned has no foreign objects. -/
theorem foreign?_of_isScannable
    {numbers : Number -> Prop}
    {e : Expr}
    (scannable : e.IsScannable numbers) :
    e.foreign? = none := by
  induction e with
  | node operation left right leftStep rightStep =>
    simp only [foreign?, leftStep scannable.1, rightStep scannable.2,
      Option.none_or]
  | wrap inner inductive_step => exact inductive_step scannable
  | foreign object => exact scannable.elim
  | _ => rfl

/-- Printing and parsing over a registry whose symbols are single operator
characters and whose operations of the same precedence group to the same side:
the text of every readable tree over the registry is parsed, and what comes out
is equal to the tree. -/
theorem parse_writeText
    (registry : Registry)
    (built : registry.Built)
    (agrees : registry.AgreesOnSides)
    (plain : ∀ operation ∈ registry.operations, operation.HasPlainSymbol)
    (e : Expr)
    (isOver : e.Over registry.operations)
    (readable : e.IsReadable) :
    ∃ text parsed, e.writeText = .ok text ∧ parse registry text = .ok parsed ∧
      parsed.equal e = .ok true := by
  have scannable := readable.isScannable
  refine ⟨e.text, e.stripped, ?_, ?_,
    stripped_equal (foreign?_of_isScannable scannable)⟩
  · exact writeText_of_isScannable
      (scannable.mono fun _ => Number.IsReadable.isWritable)
  · rw [parse_text built.hasUniqueKeys agrees plain
      (readsNumbers_readable registry) isOver scannable, mapNumbers_const]

/-- A tree that needs parentheses on the right of a difference and around a
negative base, but none around a negative zero. -/
def signedPowers : Expr :=
  node .difference
    (wrap (node .power (int (-2)) (const (.real (-0.0)))))
    (node .difference (var "x")
      (node .quotient (var "y_1") (const (.real 1e-7))))

theorem parse_writeText_signedPowers :
    ∃ text parsed, signedPowers.writeText = .ok text ∧
      parse .standard text = .ok parsed ∧
      parsed.equal signedPowers = .ok true := by
  have isOver : signedPowers.Over Registry.standard.operations := by
    simp [signedPowers, Over, Registry.standard, Operation.arithmetic]
  have readable : signedPowers.IsReadable := by
    refine ⟨⟨?_, ?_⟩, ⟨'x', [], rfl, rfl, by simp⟩,
      ⟨'y', ['_', '1'], rfl, rfl, List.all_eq_true.1 (by decide)⟩, ?_⟩
    · change Number.isWritable (.int (-2)) = true
      decide +kernel
    · change Decimal.isFinite (-0.0) = true
      decide +kernel
    · change Decimal.isFinite 1e-7 = true
      decide +kernel
  exact parse_writeText .standard Registry.built_standard
    Registry.agreesOnSides_standard
    Registry.hasPlainSymbol_standard signedPowers isOver readable

end Expr
end Symbolic
