import Symbolic.Parse
import Symbolic.Proofs.Outcome

/-!
# Equations of the parser

The parser returns the tokens that are left together with a bound on their
number. Here the bound is dropped; what remains satisfies the equations of the
grammar, one for every function of the parser.
-/

namespace Symbolic
namespace Parse

variable (registry : Registry)

/-- A tree and the tokens that are left, without the bound on their number. -/
def plain {bound : List Token -> Prop}
    (result : Result (Expr × { rest : List Token // bound rest })) :
      Result (Expr × List Token) :=
  result.map fun read => (read.1, read.2.1)

@[simp] theorem plain_ok
    {bound : List Token -> Prop}
    (e : Expr)
    (rest : { rest : List Token // bound rest }) :
    plain (.ok (e, rest)) = .ok (e, rest.1) := rfl

@[simp] theorem plain_error
    {bound : List Token -> Prop}
    (failure : Error) :
    plain (.error failure :
      Result (Expr × { rest : List Token // bound rest })) =
      .error failure := rfl

/-- The bounds are dropped step by step. -/
theorem plain_bind
    {bound bound' : List Token -> Prop}
    (first : Result (Expr × { rest : List Token // bound rest }))
    {next : Expr × { rest : List Token // bound rest } ->
      Result (Expr × { rest : List Token // bound' rest })}
    {plainNext : Expr × List Token -> Result (Expr × List Token)}
    (agrees : ∀ e rest, plain (next (e, rest)) = plainNext (e, rest.1)) :
    plain (first >>= next) = (plain first >>= plainNext) := by
  cases first with
  | error failure => rfl
  | ok read => exact agrees read.1 read.2

/-- A last step that only forgets the bound changes nothing. -/
theorem plain_bind_ok
    {bound bound' : List Token -> Prop}
    (first : Result (Expr × { rest : List Token // bound rest }))
    {next : Expr × { rest : List Token // bound rest } ->
      Result (Expr × { rest : List Token // bound' rest })}
    (agrees : ∀ e rest, plain (next (e, rest)) = .ok (e, rest.1)) :
    plain (first >>= next) = plain first := by
  rw [plain_bind first agrees]
  exact Result.bind_ok (plain first)

/-- An operand and operators, as `expression` reads them. -/
def plainExpression (minimum : Nat) (tokens : List Token) :
    Result (Expr × List Token) :=
  plain (expression registry minimum tokens)

/-- Operators behind an operand, as `operators` reads them. -/
def plainOperators (minimum : Nat) (left : Expr) (tokens : List Token) :
    Result (Expr × List Token) :=
  plain (operators registry minimum left tokens)

/-- An operand behind minus signs, as `unary` reads it. -/
def plainUnary (tokens : List Token) : Result (Expr × List Token) :=
  plain (unary registry tokens)

/-- Powers behind an operand, as `powers` reads them. -/
def plainPowers (operand : Expr) (tokens : List Token) :
    Result (Expr × List Token) :=
  plain (powers registry operand tokens)

/-- An operand, as `primary` reads it. -/
def plainPrimary (tokens : List Token) : Result (Expr × List Token) :=
  plain (primary registry tokens)

/-- An expression is an operand and the operators behind it. -/
theorem plainExpression_eq
    (minimum : Nat)
    (tokens : List Token) :
    plainExpression registry minimum tokens =
      (plainUnary registry tokens >>= fun (left, rest) =>
        plainOperators registry minimum left rest) := by
  unfold plainExpression
  rw [expression]
  refine plain_bind _ fun left rest => ?_
  exact plain_bind_ok _ fun _ _ => rfl

theorem plainOperators_operator
    (minimum : Nat)
    (left : Expr)
    (symbol : String)
    (position : Nat)
    (behind : List Token) :
    plainOperators registry minimum left
      (⟨.operator, symbol, position⟩ :: behind) =
      match registry.bySymbol? symbol with
      | none => .error (.notAnExpression position (.unknownOperator symbol))
      | some operation =>
        if operation.precedence.level < minimum then
          .ok (left, ⟨.operator, symbol, position⟩ :: behind)
        else
          plainExpression registry (rightMinimum operation) behind >>=
            fun (right, rest) =>
            plainOperators registry minimum (.node operation left right)
              rest := by
  unfold plainOperators
  rw [operators]
  cases registry.bySymbol? symbol with
  | none => rfl
  | some operation =>
    dsimp only
    split
    · rfl
    · refine plain_bind _ fun right rest => ?_
      exact plain_bind_ok _ fun _ _ => rfl

/-- Nothing is read where no operator stands. -/
theorem plainOperators_other
    (minimum : Nat)
    (left : Expr)
    {tokens : List Token}
    (noOperator : ∀ token rest, tokens = token :: rest ->
      token.kind ≠ .operator) :
    plainOperators registry minimum left tokens = .ok (left, tokens) := by
  unfold plainOperators
  rw [operators.eq_def]
  split
  · next symbol position behind => exact absurd rfl (noOperator _ _ rfl)
  · rfl

/-- Operators of at least a given precedence end here: what follows is no
operator, or one that binds less strongly. -/
def EndsAt (minimum : Nat) (rest : List Token) : Prop :=
  ∀ symbol position behind, rest = ⟨.operator, symbol, position⟩ :: behind ->
    ∃ operation, registry.bySymbol? symbol = some operation ∧
      operation.precedence.level < minimum

/-- A text that ends at one level ends at all higher ones. -/
theorem EndsAt.mono
    {registry : Registry}
    {minimum minimum' : Nat}
    {rest : List Token}
    (ends : EndsAt registry minimum rest)
    (atMost : minimum ≤ minimum') :
    EndsAt registry minimum' rest := by
  intro symbol position behind isFirst
  obtain ⟨operation, found, below⟩ := ends symbol position behind isFirst
  exact ⟨operation, found, by omega⟩

/-- Where the operators end, nothing more is read. -/
theorem EndsAt.plainOperators
    {registry : Registry}
    {minimum : Nat}
    {rest : List Token}
    (ends : EndsAt registry minimum rest)
    (left : Expr) :
    plainOperators registry minimum left rest = .ok (left, rest) := by
  rcases rest with _ | ⟨⟨kind, symbol, position⟩, behind⟩
  · exact plainOperators_other registry minimum left (by simp)
  · by_cases isOperator : kind = .operator
    · subst isOperator
      obtain ⟨operation, found, below⟩ := ends symbol position behind rfl
      rw [plainOperators_operator, found]
      simp only [below, if_true]
    · apply plainOperators_other
      intro token tail isFirst
      cases isFirst
      exact isOperator

/-- A minus sign in front of an integer is part of it. -/
theorem plainUnary_minus_integer
    (text : String)
    (position position' : Nat)
    (rest : List Token) :
    plainUnary registry
      (⟨.operator, "-", position⟩ :: ⟨.integer, text, position'⟩ :: rest) =
      (integerLiteral text >>= fun value => .ok (.int (-value), rest)) := by
  unfold plainUnary
  rw [unary]
  cases integerLiteral text <;> rfl

/-- The same goes for a decimal number. -/
theorem plainUnary_minus_real
    (text : String)
    (position position' : Nat)
    (rest : List Token) :
    plainUnary registry
      (⟨.operator, "-", position⟩ :: ⟨.real, text, position'⟩ :: rest) =
      .ok (.const (.real (-(realLiteral text))), rest) := by
  unfold plainUnary
  rw [unary]
  rfl

/-- Whatever follows a minus sign, unless it is a numeral, is read as an
operand, and the powers behind it before it is negated. -/
theorem plainUnary_minus
    {multiplicative : Operation}
    (isMultiplicative : registry.multiplicative = some multiplicative)
    (position : Nat)
    {behind : List Token}
    (noNumeral : ∀ token rest, behind = token :: rest ->
      token.kind ≠ .integer ∧ token.kind ≠ .real) :
    plainUnary registry (⟨.operator, "-", position⟩ :: behind) =
      (plainUnary registry behind >>= fun (operand, rest) =>
        plainPowers registry operand rest >>= fun (e, rest') =>
          .ok (.node multiplicative (.int (-1)) e, rest')) := by
  unfold plainUnary
  rw [unary.eq_def]
  rcases behind with _ | ⟨⟨kind, text, position'⟩, rest⟩
  case cons =>
    cases kind with
    | integer => exact absurd rfl (noNumeral _ _ rfl).1
    | real => exact absurd rfl (noNumeral _ _ rfl).2
    | _ =>
      simp only [isMultiplicative]
      refine plain_bind _ fun operand rest => ?_
      exact plain_bind _ fun _ _ => rfl
  case nil =>
    simp only [isMultiplicative]
    refine plain_bind _ fun operand rest => ?_
    exact plain_bind _ fun _ _ => rfl

/-- Without a product nothing is multiplied by `-1`. -/
theorem plainUnary_minus_none
    (noProduct : registry.multiplicative = none)
    (position : Nat)
    {behind : List Token}
    (noNumeral : ∀ token rest, behind = token :: rest ->
      token.kind ≠ .integer ∧ token.kind ≠ .real) :
    plainUnary registry (⟨.operator, "-", position⟩ :: behind) =
      .error (.notAnExpression position .minusWithoutProduct) := by
  unfold plainUnary
  rw [unary.eq_def]
  rcases behind with _ | ⟨⟨kind, text, position'⟩, rest⟩
  case cons =>
    cases kind with
    | integer => exact absurd rfl (noNumeral _ _ rfl).1
    | real => exact absurd rfl (noNumeral _ _ rfl).2
    | _ => simp only [noProduct, plain_error]
  case nil => simp only [noProduct, plain_error]

/-- Without a minus sign a primary is read. -/
theorem plainUnary_other
    {tokens : List Token}
    (noMinus : ∀ position rest, tokens ≠ ⟨.operator, "-", position⟩ :: rest) :
    plainUnary registry tokens = plainPrimary registry tokens := by
  unfold plainUnary plainPrimary
  rw [unary.eq_def]
  split
  · next position behind => exact absurd rfl (noMinus position behind)
  · rfl

theorem plainPowers_operator
    (operand : Expr)
    (symbol : String)
    (position : Nat)
    (behind : List Token) :
    plainPowers registry operand (⟨.operator, symbol, position⟩ :: behind) =
      match registry.exponential with
      | none => .ok (operand, ⟨.operator, symbol, position⟩ :: behind)
      | some exponential =>
        if symbol = exponential.symbol then
          plainExpression registry exponential.precedence.level behind >>=
            fun (exponent, rest) =>
            plainPowers registry (.node exponential operand exponent) rest
        else .ok (operand, ⟨.operator, symbol, position⟩ :: behind) := by
  unfold plainPowers
  rw [powers.eq_def]
  cases registry.exponential with
  | none => rfl
  | some exponential =>
    dsimp only
    split
    · refine plain_bind _ fun exponent rest => ?_
      exact plain_bind_ok _ fun _ _ => rfl
    · rfl

/-- No power is read where no operator stands. -/
theorem plainPowers_other
    (operand : Expr)
    {tokens : List Token}
    (noOperator : ∀ token rest, tokens = token :: rest ->
      token.kind ≠ .operator) :
    plainPowers registry operand tokens = .ok (operand, tokens) := by
  unfold plainPowers
  rw [powers.eq_def]
  rcases tokens with _ | ⟨⟨kind, text, position⟩, rest⟩
  · cases registry.exponential <;> rfl
  · cases kind with
    | operator => exact absurd rfl (noOperator _ _ rfl)
    | _ => cases registry.exponential <;> rfl

theorem plainPrimary_integer
    (text : String)
    (position : Nat)
    (rest : List Token) :
    plainPrimary registry (⟨.integer, text, position⟩ :: rest) =
      (integerLiteral text >>= fun value => .ok (.int value, rest)) := by
  unfold plainPrimary
  rw [primary]
  cases integerLiteral text <;> rfl

theorem plainPrimary_real
    (text : String)
    (position : Nat)
    (rest : List Token) :
    plainPrimary registry (⟨.real, text, position⟩ :: rest) =
      .ok (.const (.real (realLiteral text)), rest) := by
  unfold plainPrimary
  rw [primary]
  rfl

theorem plainPrimary_identifier
    (name : String)
    (position : Nat)
    (rest : List Token) :
    plainPrimary registry (⟨.identifier, name, position⟩ :: rest) =
      .ok (.var name, rest) := by
  unfold plainPrimary
  rw [primary]
  rfl

/-- Behind an opening parenthesis stands an expression and a closing one. -/
theorem plainPrimary_opening
    (text : String)
    (position : Nat)
    (behind : List Token) :
    plainPrimary registry (⟨.opening, text, position⟩ :: behind) =
      (plainExpression registry 0 behind >>= fun (e, rest) =>
        match rest with
        | ⟨.closing, _, _⟩ :: rest' => .ok (e, rest')
        | others => .error (expected .expectedClosing others)) := by
  unfold plainPrimary
  rw [primary]
  refine plain_bind _ fun e rest => ?_
  obtain ⟨rest, shorter⟩ := rest
  rcases rest with _ | ⟨⟨kind, text', position'⟩, rest'⟩
  · rfl
  · cases kind <;> rfl

/-- A token that starts an operand. -/
def startsOperand (token : Token) : Bool :=
  match token.kind with
  | .integer | .real | .identifier | .opening => true
  | _ => false

/-- Where no operand can start there is an error. -/
theorem plainPrimary_other
    {tokens : List Token}
    (noOperand : ∀ token rest, tokens = token :: rest ->
      startsOperand token = false) :
    plainPrimary registry tokens =
      .error (expected .expectedOperand tokens) := by
  unfold plainPrimary
  rw [primary.eq_def]
  split
  · exact absurd (noOperand _ _ rfl) (by simp [startsOperand])
  · exact absurd (noOperand _ _ rfl) (by simp [startsOperand])
  · exact absurd (noOperand _ _ rfl) (by simp [startsOperand])
  · exact absurd (noOperand _ _ rfl) (by simp [startsOperand])
  · rfl

/-- Parsing all tokens in terms of the plain parser. -/
theorem tokens_eq (ts : List Token) :
    tokens registry ts =
      (plainExpression registry 0 ts >>= fun (e, rest) =>
        match front rest with
        | (_, .endOfInput) => .ok e
        | _ => .error (expected .expectedEnd rest)) := by
  unfold tokens plainExpression
  cases expression registry 0 ts with
  | error failure => rfl
  | ok read =>
    obtain ⟨e, rest, shorter⟩ := read
    rfl

end Parse
end Symbolic
