import Mathlib.Data.List.Infix
import Symbolic.Proofs.ParserEquations
import Symbolic.Proofs.TokenBoundaries

/-!
# How the parser builds trees

`Yields` is the parser as a relation: what a part of it builds from tokens, and
the tokens that it leaves.  It holds exactly where the part succeeds, so that
facts about parsed trees are proved by induction on how they were built: the
tokens that are left stand at the end of those that were given, operators of the
given precedence end in front of them, and every property of constants and
identifiers that passes to nodes of registered operations holds of the tree.
-/

namespace Symbolic
namespace Parse

/-- The parts of the parser, with the precedence of the operators that are read
and the operand that was read before them. -/
inductive Part where
  | expression (minimum : Nat)
  | operators (minimum : Nat) (left : Expr)
  | unary
  | primary
  | powers (operand : Expr)

/-- What a part of the parser makes of tokens. -/
def Part.read (registry : Registry) (part : Part) (tokens : List Token) :
    Result (Expr × List Token) :=
  match part with
  | expression minimum => plainExpression registry minimum tokens
  | operators minimum left => plainOperators registry minimum left tokens
  | unary => plainUnary registry tokens
  | primary => plainPrimary registry tokens
  | powers operand => plainPowers registry operand tokens

/-- No operator of powers stands in front. -/
def NoPower (registry : Registry) (tokens : List Token) : Prop :=
  ∀ exponential position behind, registry.exponential = some exponential ->
    tokens ≠ ⟨.operator, exponential.symbol, position⟩ :: behind

/-- No minus sign stands in front. -/
def NoMinus (tokens : List Token) : Prop :=
  ∀ position behind, tokens ≠ ⟨.operator, "-", position⟩ :: behind

/-- No numeral stands in front. -/
def NoNumeral (tokens : List Token) : Prop :=
  ∀ token behind, tokens = token :: behind ->
    token.kind ≠ .integer ∧ token.kind ≠ .real

/-- A part of the parser builds a tree from tokens and leaves others. -/
inductive Yields (registry : Registry) : Part -> List Token -> Expr ->
    List Token -> Prop where
  | expression
      {minimum : Nat}
      {tokens rest rest' : List Token}
      {left e : Expr}
      (operand : Yields registry .unary tokens left rest)
      (operators : Yields registry (.operators minimum left) rest e rest') :
      Yields registry (.expression minimum) tokens e rest'
  | operatorsEnd
      {minimum : Nat}
      {rest : List Token}
      (left : Expr)
      (ends : EndsAt registry minimum rest) :
      Yields registry (.operators minimum left) rest left rest
  | operator
      {minimum : Nat}
      {symbol : String}
      {operation : Operation}
      {behind rest rest' : List Token}
      {left right e : Expr}
      (position : Nat)
      (found : registry.bySymbol? symbol = some operation)
      (strong : minimum ≤ operation.precedence.level)
      (operand : Yields registry (.expression (rightMinimum operation)) behind
        right rest)
      (operators : Yields registry
        (.operators minimum (.node operation left right)) rest e rest') :
      Yields registry (.operators minimum left)
        (⟨.operator, symbol, position⟩ :: behind) e rest'
  | minusInteger
      {text : String}
      {value : Int}
      (position position' : Nat)
      (rest : List Token)
      (isLiteral : integerLiteral text = .ok value) :
      Yields registry .unary
        (⟨.operator, "-", position⟩ :: ⟨.integer, text, position'⟩ :: rest)
          (.int (-value)) rest
  | minusReal
      (text : String)
      (position position' : Nat)
      (rest : List Token) :
      Yields registry .unary
        (⟨.operator, "-", position⟩ :: ⟨.real, text, position'⟩ :: rest)
        (.const (.real (-(realLiteral text)))) rest
  | minus
      {multiplicative : Operation}
      {behind rest rest' : List Token}
      {base e : Expr}
      (position : Nat)
      (isMultiplicative : registry.multiplicative = some multiplicative)
      (noNumeral : NoNumeral behind)
      (operand : Yields registry .unary behind base rest)
      (powers : Yields registry (.powers base) rest e rest') :
      Yields registry .unary (⟨.operator, "-", position⟩ :: behind)
        (.node multiplicative (.int (-1)) e) rest'
  | unsigned
      {tokens rest : List Token}
      {e : Expr}
      (noMinus : NoMinus tokens)
      (operand : Yields registry .primary tokens e rest) :
      Yields registry .unary tokens e rest
  | integer
      {text : String}
      {value : Int}
      (position : Nat)
      (rest : List Token)
      (isLiteral : integerLiteral text = .ok value) :
      Yields registry .primary (⟨.integer, text, position⟩ :: rest)
        (.int value) rest
  | real
      (text : String)
      (position : Nat)
      (rest : List Token) :
      Yields registry .primary (⟨.real, text, position⟩ :: rest)
        (.const (.real (realLiteral text))) rest
  | identifier
      (name : String)
      (position : Nat)
      (rest : List Token) :
      Yields registry .primary (⟨.identifier, name, position⟩ :: rest)
        (.var name) rest
  | parentheses
      {behind rest : List Token}
      {e : Expr}
      (text text' : String)
      (position position' : Nat)
      (inside : Yields registry (.expression 0) behind e
        (⟨.closing, text', position'⟩ :: rest)) :
      Yields registry .primary (⟨.opening, text, position⟩ :: behind) e rest
  | powersEnd
      {rest : List Token}
      (operand : Expr)
      (ends : NoPower registry rest) :
      Yields registry (.powers operand) rest operand rest
  | power
      {exponential : Operation}
      {behind rest rest' : List Token}
      {base right e : Expr}
      (position : Nat)
      (isExponential : registry.exponential = some exponential)
      (exponent : Yields registry (.expression exponential.precedence.level)
        behind right rest)
      (powers :
        Yields registry (.powers (.node exponential base right)) rest e rest') :
      Yields registry (.powers base)
        (⟨.operator, exponential.symbol, position⟩ :: behind) e rest'

variable {registry : Registry}

/-- What ends powers: no operator of powers. -/
theorem NoPower.plainPowers
    {rest : List Token}
    (ends : NoPower registry rest)
    (operand : Expr) :
    plainPowers registry operand rest = .ok (operand, rest) := by
  rcases rest with _ | ⟨⟨kind, symbol, position⟩, behind⟩
  · exact plainPowers_other registry operand (by simp)
  · by_cases isOperator : kind = .operator
    · subst isOperator
      rw [plainPowers_operator]
      cases isExponential : registry.exponential with
      | none => rfl
      | some exponential =>
        have other : symbol ≠ exponential.symbol := by
          rintro rfl
          exact ends exponential position behind isExponential rfl
        simp only [other, if_false]
    · apply plainPowers_other
      rintro token tail isFirst
      cases isFirst
      exact isOperator

/-- What is yielded is read. -/
theorem Yields.read_eq
    {part : Part}
    {tokens rest : List Token}
    {e : Expr}
    (yields : Yields registry part tokens e rest) :
    part.read registry tokens = .ok (e, rest) := by
  induction yields with
  | expression operand operators leftStep rightStep =>
    simp only [Part.read] at leftStep rightStep ⊢
    rw [plainExpression_eq, leftStep]
    exact rightStep
  | operatorsEnd left ends => exact ends.plainOperators left
  | operator position found strong operand operators leftStep rightStep =>
    simp only [Part.read] at leftStep rightStep ⊢
    rw [plainOperators_operator, found]
    simp only [Nat.not_lt.2 strong, if_false, leftStep]
    exact rightStep
  | minusInteger position position' rest isLiteral =>
    rw [Part.read, plainUnary_minus_integer, isLiteral]
    rfl
  | minusReal text position position' rest =>
    exact plainUnary_minus_real registry text position position' rest
  | minus position isMultiplicative noNumeral operand powers leftStep rightStep =>
    simp only [Part.read] at leftStep rightStep ⊢
    rw [plainUnary_minus registry isMultiplicative position noNumeral, leftStep]
    simp only [Result.ok_bind, rightStep]
  | unsigned noMinus operand inductive_step =>
    rw [Part.read, plainUnary_other registry noMinus]
    exact inductive_step
  | integer position rest isLiteral =>
    rw [Part.read, plainPrimary_integer, isLiteral]
    rfl
  | real text position rest =>
    exact plainPrimary_real registry text position rest
  | identifier name position rest =>
    exact plainPrimary_identifier registry name position rest
  | parentheses text text' position position' inside inductive_step =>
    simp only [Part.read] at inductive_step ⊢
    rw [plainPrimary_opening, inductive_step]
    rfl
  | powersEnd operand ends => exact ends.plainPowers operand
  | power position isExponential exponent powers leftStep rightStep =>
    simp only [Part.read] at leftStep rightStep ⊢
    rw [plainPowers_operator, isExponential]
    simp only [if_true, leftStep]
    exact rightStep

/-! ## What is read is yielded -/

theorem plain_eq_ok
    {bound : List Token -> Prop}
    {result : Result (Expr × { rest : List Token // bound rest })}
    {e : Expr}
    {rest : List Token}
    (read : plain result = .ok (e, rest)) :
    bound rest := by
  cases result with
  | error failure => cases read
  | ok found =>
    cases read
    exact found.2.2

/-- What a part of the parser reads from the tokens is yielded. -/
def IsYielded (registry : Registry) (part : Part) (tokens : List Token) :
    Prop :=
  ∀ e rest, part.read registry tokens = .ok (e, rest) ->
    Yields registry part tokens e rest

/-! ### One part, when what is read from fewer tokens is yielded already -/

section Parts

variable
  {tokens : List Token}
  (earlier : ∀ part behind, behind.length < tokens.length ->
    IsYielded registry part behind)

include earlier

/-- A numeral, an identifier or an expression in parentheses is yielded. -/
theorem isYielded_primary : IsYielded registry .primary tokens := by
  intro e rest read
  have startless (noOperand : ∀ token tail, tokens = token :: tail ->
      startsOperand token = false) :
      False := by
    rw [Part.read, plainPrimary_other registry noOperand] at read
    cases read
  rcases tokens with _ | ⟨⟨kind, text, position⟩, behind⟩
  case nil => exact (startless fun _ _ isFirst => nomatch isFirst).elim
  case cons =>
    cases kind with
    | integer =>
      rw [Part.read, plainPrimary_integer] at read
      obtain ⟨value, isLiteral, isRead⟩ := Result.bind_eq_ok.1 read
      cases isRead
      exact .integer position rest isLiteral
    | real =>
      rw [Part.read, plainPrimary_real] at read
      cases read
      exact .real text position rest
    | identifier =>
      rw [Part.read, plainPrimary_identifier] at read
      cases read
      exact .identifier text position rest
    | opening =>
      rw [Part.read, plainPrimary_opening] at read
      obtain ⟨⟨inside, left⟩, readInside, closed⟩ := Result.bind_eq_ok.1 read
      dsimp only at closed
      split at closed
      · next _ text' position' others =>
        cases closed
        exact .parentheses text text' position position'
          (earlier (.expression 0) behind (Nat.lt_succ_self _) e _ readInside)
      · cases closed
    | _ =>
      refine (startless fun token tail isFirst => ?_).elim
      cases isFirst
      rfl

/-- So are powers behind an operand. -/
theorem isYielded_powers (operand : Expr) :
    IsYielded registry (.powers operand) tokens := by
  intro e rest read
  by_cases ends : NoPower registry tokens
  · rw [Part.read, ends.plainPowers] at read
    cases read
    exact .powersEnd operand ends
  · obtain ⟨exponential, position, behind, isExponential, rfl⟩ :
        ∃ exponential position behind, registry.exponential = some exponential ∧
          tokens = ⟨.operator, exponential.symbol, position⟩ :: behind := by
      simpa [NoPower] using ends
    rw [Part.read, plainPowers_operator, isExponential] at read
    simp only [if_true] at read
    obtain ⟨⟨exponent, rest'⟩, readExponent, readPowers⟩ :=
      Result.bind_eq_ok.1 read
    have shorter : rest'.length < behind.length := plain_eq_ok readExponent
    have behindShorter := Nat.lt_succ_self behind.length
    exact .power position isExponential
      (earlier (.expression _) behind behindShorter exponent rest' readExponent)
      (earlier (.powers _) rest' (Nat.lt_trans shorter behindShorter) e rest
        readPowers)

/-- So are operators of at least the given precedence. -/
theorem isYielded_operators
    (minimum : Nat)
    (left : Expr) :
    IsYielded registry (.operators minimum left) tokens := by
  intro e rest read
  by_cases ends : EndsAt registry minimum tokens
  · rw [Part.read, ends.plainOperators] at read
    cases read
    exact .operatorsEnd left ends
  · obtain ⟨symbol, position, behind, rfl, strong⟩ :
        ∃ symbol position behind, tokens =
          ⟨.operator, symbol, position⟩ :: behind ∧
          ∀ operation, registry.bySymbol? symbol = some operation ->
            minimum ≤ operation.precedence.level := by
      simpa [EndsAt] using ends
    rw [Part.read, plainOperators_operator] at read
    cases found : registry.bySymbol? symbol with
    | none =>
      rw [found] at read
      cases read
    | some operation =>
      rw [found] at read
      simp only [Nat.not_lt.2 (strong operation found), if_false] at read
      obtain ⟨⟨right, rest'⟩, readOperand, readOperators⟩ :=
        Result.bind_eq_ok.1 read
      have shorter : rest'.length < behind.length := plain_eq_ok readOperand
      have behindShorter := Nat.lt_succ_self behind.length
      exact .operator position found (strong operation found)
        (earlier (.expression _) behind behindShorter right rest' readOperand)
        (earlier (.operators _ _) rest' (Nat.lt_trans shorter behindShorter) e
          rest readOperators)

/-- A minus sign in front of a numeral belongs to it; in front of anything else
it multiplies. -/
theorem isYielded_unary : IsYielded registry .unary tokens := by
  intro e rest read
  by_cases noMinus : NoMinus tokens
  · rw [Part.read, plainUnary_other registry noMinus] at read
    exact .unsigned noMinus (isYielded_primary earlier e rest read)
  obtain ⟨position, behind, rfl⟩ :
      ∃ position behind, tokens = ⟨.operator, "-", position⟩ :: behind := by
    simpa [NoMinus] using noMinus
  by_cases noNumeral : NoNumeral behind
  · cases isMultiplicative : registry.multiplicative with
    | none =>
      rw [Part.read, plainUnary_minus_none registry isMultiplicative position
        noNumeral] at read
      cases read
    | some multiplicative =>
      rw [Part.read, plainUnary_minus registry isMultiplicative position
        noNumeral] at read
      obtain ⟨⟨operand, rest'⟩, readOperand, readPowers⟩ :=
        Result.bind_eq_ok.1 read
      obtain ⟨⟨raised, rest''⟩, isRaised, returned⟩ :=
        Result.bind_eq_ok.1 readPowers
      cases returned
      have shorter : rest'.length < behind.length := plain_eq_ok readOperand
      have behindShorter := Nat.lt_succ_self behind.length
      exact .minus position isMultiplicative noNumeral
        (earlier .unary behind behindShorter operand rest' readOperand)
        (earlier (.powers _) rest' (Nat.lt_trans shorter behindShorter) raised
          rest isRaised)
  · obtain ⟨⟨kind, text, position'⟩, others, rfl, isNumeral⟩ :
        ∃ token others, behind = token :: others ∧
          (token.kind ≠ .integer -> token.kind = .real) := by
      simpa [NoNumeral] using noNumeral
    by_cases isInteger : kind = .integer
    · subst isInteger
      rw [Part.read, plainUnary_minus_integer] at read
      obtain ⟨value, isLiteral, isRead⟩ := Result.bind_eq_ok.1 read
      cases isRead
      exact .minusInteger position position' rest isLiteral
    · obtain rfl : kind = .real := isNumeral isInteger
      rw [Part.read, plainUnary_minus_real] at read
      cases read
      exact .minusReal text position position' rest

/-- An expression is an operand with operators behind it. -/
theorem isYielded_expression (minimum : Nat) :
    IsYielded registry (.expression minimum) tokens := by
  intro e rest read
  rw [Part.read, plainExpression_eq] at read
  obtain ⟨⟨left, rest'⟩, readOperand, readOperators⟩ := Result.bind_eq_ok.1 read
  exact .expression (isYielded_unary earlier left rest' readOperand)
    (earlier (.operators _ _) rest' (plain_eq_ok readOperand) e rest
      readOperators)

end Parts

/-- The induction is on the number of tokens: what is read behind the first ones
is yielded. -/
theorem isYielded (part : Part) (tokens : List Token) :
    IsYielded registry part tokens := by
  induction count :
    tokens.length using Nat.strongRecOn generalizing part tokens with
  | ind count inductive_step =>
    have earlier (part : Part) (behind : List Token)
        (shorter : behind.length < tokens.length) :
        IsYielded registry part behind :=
      inductive_step behind.length (count ▸ shorter) part behind rfl
    cases part with
    | expression minimum => exact isYielded_expression earlier minimum
    | operators minimum left => exact isYielded_operators earlier minimum left
    | unary => exact isYielded_unary earlier
    | primary => exact isYielded_primary earlier
    | powers operand => exact isYielded_powers earlier operand

/-- A part of the parser reads exactly what it yields. -/
theorem yields_iff
    {part : Part}
    {tokens rest : List Token}
    {e : Expr} :
    Yields registry part tokens e rest ↔
      part.read registry tokens = .ok (e, rest) :=
  ⟨Yields.read_eq, isYielded part tokens e rest⟩

/-! ## What is left, and what is built -/

namespace Yields

variable {part : Part} {tokens rest : List Token} {e : Expr}

/-- The tokens that are left stand at the end of those that were given. -/
theorem rest_suffix
    (yields : Yields registry part tokens e rest) :
    rest <:+ tokens := by
  induction yields with
  | expression operand operators leftStep rightStep =>
    exact rightStep.trans leftStep
  | operatorsEnd left ends => exact List.suffix_refl _
  | operator position found strong operand operators leftStep rightStep =>
    exact (rightStep.trans leftStep).trans (List.suffix_cons _ _)
  | minusInteger position position' rest isLiteral =>
    exact (List.suffix_cons _ _).trans (List.suffix_cons _ _)
  | minusReal text position position' rest =>
    exact (List.suffix_cons _ _).trans (List.suffix_cons _ _)
  | minus position isMultiplicative noNumeral operand powers leftStep rightStep =>
    exact (rightStep.trans leftStep).trans (List.suffix_cons _ _)
  | unsigned noMinus operand inductive_step => exact inductive_step
  | integer position rest isLiteral => exact List.suffix_cons _ _
  | real text position rest => exact List.suffix_cons _ _
  | identifier name position rest => exact List.suffix_cons _ _
  | parentheses text text' position position' inside inductive_step =>
    exact ((List.suffix_cons _ _).trans inductive_step).trans
      (List.suffix_cons _ _)
  | powersEnd operand ends => exact List.suffix_refl _
  | power position isExponential exponent powers leftStep rightStep =>
    exact (rightStep.trans leftStep).trans (List.suffix_cons _ _)

/-- Operators of the given precedence end in front of what is left. -/
theorem endsAt
    (yields : Yields registry part tokens e rest) :
    match part with
    | .expression minimum => EndsAt registry minimum rest
    | .operators minimum _ => EndsAt registry minimum rest
    | _ => True := by
  induction yields with
  | expression operand operators leftStep rightStep => exact rightStep
  | operatorsEnd left ends => exact ends
  | operator position found strong operand operators leftStep rightStep =>
    exact rightStep
  | _ => trivial

/-- A property of constants, and of the variables among the tokens, that passes
to nodes of registered operations holds of every tree that is built from
operands with the property. -/
theorem closed
    {property : Expr -> Prop}
    (constants : ∀ value, property (.const value))
    (nodes : ∀ operation ∈ registry.operations, ∀ left right, property left ->
      property right ->
      property (.node operation left right))
    (yields : Yields registry part tokens e rest)
    (names : ∀ token ∈ tokens, token.kind = .identifier ->
      property (.var token.text))
    (operand : match part with
      | .operators _ left => property left
      | .powers base => property base
      | _ => True) :
    property e := by
  induction yields with
  | expression first operators leftStep rightStep =>
    have left := leftStep names trivial
    exact rightStep (fun token member =>
      names token (first.rest_suffix.subset member)) left
  | operatorsEnd left ends => exact operand
  | operator position found strong second operators leftStep rightStep =>
    have right :=
      leftStep (fun token member => names token (.tail _ member)) trivial
    refine rightStep (fun token member => ?_)
      (nodes _ (Registry.mem_of_bySymbol?_eq_some found) _ _ operand right)
    exact names token (.tail _ (second.rest_suffix.subset member))
  | minusInteger position position' rest isLiteral => exact constants _
  | minusReal text position position' rest => exact constants _
  | minus position isMultiplicative noNumeral first powers leftStep rightStep =>
    have base :=
      leftStep (fun token member => names token (.tail _ member)) trivial
    have raised := rightStep
      (fun token member =>
        names token (.tail _ (first.rest_suffix.subset member))) base
    exact nodes _ (List.mem_of_find?_eq_some isMultiplicative) _ _
      (constants _) raised
  | unsigned noMinus primary inductive_step =>
    exact inductive_step names trivial
  | integer position rest isLiteral => exact constants _
  | real text position rest => exact constants _
  | identifier name position rest => exact names _ List.mem_cons_self rfl
  | parentheses text text' position position' inside inductive_step =>
    exact inductive_step
      (fun token member => names token (.tail _ member)) trivial
  | powersEnd base ends => exact operand
  | power position isExponential exponent powers leftStep rightStep =>
    have right :=
      leftStep (fun token member => names token (.tail _ member)) trivial
    refine rightStep (fun token member => ?_)
      (nodes _ (List.mem_of_find?_eq_some isExponential) _ _ operand right)
    exact names token (.tail _ (exponent.rest_suffix.subset member))

end Yields

/-- The tokens of an expression: everything up to the end of the input is
read. -/
theorem tokens_eq_ok
    {ts : List Token}
    {e : Expr} :
    tokens registry ts = .ok e ↔
      ∃ rest, Yields registry (.expression 0) ts e rest ∧
        (front rest).2 = .endOfInput := by
  simp only [yields_iff, Part.read, tokens_eq]
  constructor
  · intro parsed
    obtain ⟨⟨built, rest⟩, read, atEnd⟩ := Result.bind_eq_ok.1 parsed
    dsimp only at atEnd
    split at atEnd
    · next position isEnd =>
      cases atEnd
      exact ⟨rest, read, by rw [isEnd]⟩
    · cases atEnd
  · rintro ⟨rest, read, isEnd⟩
    rw [read, Result.ok_bind]
    dsimp only
    rcases isFront : front rest with ⟨position, found⟩
    rw [isFront] at isEnd
    cases isEnd
    rfl

/-- Every property of constants, and of variables that are named by identifiers,
that passes to nodes of registered operations holds of parsed trees. -/
theorem closed_of_parse
    {property : Expr -> Prop}
    (constants : ∀ value, property (.const value))
    (names : ∀ name, Token.IsIdentifier name -> property (.var name))
    (nodes : ∀ operation ∈ registry.operations, ∀ left right, property left ->
      property right ->
      property (.node operation left right))
    {text : String}
    {e : Expr}
    (parsed : parse registry text = .ok e) :
    property e := by
  obtain ⟨ts, scanned, parsedTokens⟩ := Result.bind_eq_ok.1 parsed
  obtain ⟨rest, yields, -⟩ := tokens_eq_ok.1 parsedTokens
  refine yields.closed constants nodes
    (fun token member isIdentifier => names _ ?_) trivial
  exact Token.isIdentifier_of_scanFrom scanned token member isIdentifier

end Parse
end Symbolic
