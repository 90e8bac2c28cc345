import Symbolic.Registry.Basic
import Symbolic.Token

/-!
# Parsing

Expressions are sequences of operands and operators; operators of a registry are
found by their symbols and group by precedence, to the left unless they are
right associative.  A minus sign in front of a numeral makes a negative literal;
in front of any other operand it multiplies by minus one, after all powers that
follow the operand.

Every function returns the tokens that it left, which are fewer than those it
was given.
-/

namespace Symbolic
namespace Parse

/-- Tokens that are left when some were consumed. -/
abbrev Shorter (tokens : List Token) :=
  { rest : List Token // rest.length < tokens.length }

/-- Tokens that are left when perhaps none were consumed. -/
abbrev NotLonger (tokens : List Token) :=
  { rest : List Token // rest.length ≤ tokens.length }

/-- What stands at the front of the tokens, and where. -/
def front : List Token -> Nat × Found
  | [] => (0, .endOfInput)
  | token :: _ =>
    match token.kind with
    | .endOfInput => (token.position, .endOfInput)
    | _ => (token.position, .token token.text)

/-- Report that something else was expected at the front of the tokens. -/
def expected (fault : Found -> SyntaxFault) (tokens : List Token) : Error :=
  .notAnExpression (front tokens).1 (fault (front tokens).2)

/-- The value of an integer literal, which must not have too many digits. -/
def integerLiteral (text : String) : Result Int :=
  if Number.digitLimit < text.length then .error (.literalTooLong text.length)
  else .ok (Decimal.valueOf text.toList)

/-- The value of a real literal. -/
def realLiteral (text : String) : Float :=
  match Decimal.readFraction? text.toList with
  | some fraction => Decimal.ofSignAndBits false fraction.nearestBits
  | none => 0.0

/-- The lowest precedence that the right operand of an operation may have
without parentheses. -/
def rightMinimum (operation : Operation) : Nat :=
  if operation.isRightAssociative then operation.precedence.level
  else operation.precedence.level + 1

mutual

/-- An operand followed by operators of at least the given precedence. -/
def expression
    (registry : Registry)
    (minimum : Nat)
    (tokens : List Token) : Result (Expr × Shorter tokens) := do
  let (left, ⟨rest, shorter⟩) ← unary registry tokens
  let (e, ⟨rest', notLonger⟩) ← operators registry minimum left rest
  return (e, ⟨rest', by omega⟩)
termination_by 3 * tokens.length + 2

/-- Operators of at least the given precedence, with their right operands,
behind a left operand. -/
def operators
    (registry : Registry)
    (minimum : Nat)
    (left : Expr)
    (tokens : List Token) : Result (Expr × NotLonger tokens) :=
  match tokens with
  | ⟨.operator, symbol, position⟩ :: behind =>
    match registry.bySymbol? symbol with
    | none => .error (.notAnExpression position (.unknownOperator symbol))
    | some operation =>
      if operation.precedence.level < minimum then
        .ok (left, ⟨⟨.operator, symbol, position⟩ :: behind, by omega⟩)
      else do
        let (right, ⟨rest, shorter⟩) ←
          expression registry (rightMinimum operation) behind
        let (e, ⟨rest', notLonger⟩) ←
          operators registry minimum (.node operation left right) rest
        return (e, ⟨rest', by simp only [List.length_cons]; omega⟩)
  | others => .ok (left, ⟨others, by omega⟩)
termination_by 3 * tokens.length
decreasing_by all_goals simp only [List.length_cons]; omega

/-- An operand with any number of minus signs in front. -/
def unary (registry : Registry) (tokens : List Token) :
    Result (Expr × Shorter tokens) :=
  match tokens with
  | ⟨.operator, "-", position⟩ :: behind =>
    match behind with
    | ⟨.integer, text, _⟩ :: rest => do
      let value ← integerLiteral text
      return (.int (-value), ⟨rest, by simp only [List.length_cons]; omega⟩)
    | ⟨.real, text, _⟩ :: rest =>
      .ok (.const (.real (-(realLiteral text))),
        ⟨rest, by simp only [List.length_cons]; omega⟩)
    | others =>
      match registry.multiplicative with
      | none => .error (.notAnExpression position .minusWithoutProduct)
      | some multiplicative => do
        let (operand, ⟨rest, shorter⟩) ← unary registry others
        let (e, ⟨rest', notLonger⟩) ← powers registry operand rest
        return (.node multiplicative (.int (-1)) e,
          ⟨rest', by simp only [List.length_cons]; omega⟩)
  | others => primary registry others
termination_by 3 * tokens.length + 1
decreasing_by all_goals first | omega | (simp only [List.length_cons]; omega)

/-- Powers behind an operand that a minus sign stands in front of. -/
def powers
    (registry : Registry)
    (operand : Expr)
    (tokens : List Token) : Result (Expr × NotLonger tokens) :=
  match registry.exponential, tokens with
  | some exponential, ⟨.operator, symbol, position⟩ :: behind =>
    if symbol = exponential.symbol then do
      let (exponent, ⟨rest, shorter⟩) ←
        expression registry exponential.precedence.level behind
      let (e, ⟨rest', notLonger⟩) ←
        powers registry (.node exponential operand exponent) rest
      return (e, ⟨rest', by simp only [List.length_cons]; omega⟩)
    else .ok (operand, ⟨⟨.operator, symbol, position⟩ :: behind, by omega⟩)
  | _, others => .ok (operand, ⟨others, by omega⟩)
termination_by 3 * tokens.length
decreasing_by all_goals simp only [List.length_cons]; omega

/-- A numeral, an identifier or an expression in parentheses. -/
def primary (registry : Registry) (tokens : List Token) :
    Result (Expr × Shorter tokens) :=
  match tokens with
  | ⟨.integer, text, _⟩ :: rest => do
    let value ← integerLiteral text
    return (.int value, ⟨rest, Nat.lt_succ_self _⟩)
  | ⟨.real, text, _⟩ :: rest =>
    .ok (.const (.real (realLiteral text)), ⟨rest, Nat.lt_succ_self _⟩)
  | ⟨.identifier, name, _⟩ :: rest =>
    .ok (.var name, ⟨rest, Nat.lt_succ_self _⟩)
  | ⟨.opening, _, _⟩ :: behind => do
    let (e, ⟨rest, shorter⟩) ← expression registry 0 behind
    match rest, shorter with
    | ⟨.closing, _, _⟩ :: rest', shorter =>
      return (e, ⟨rest', by simp only [List.length_cons] at shorter ⊢; omega⟩)
    | others, _ => throw (expected .expectedClosing others)
  | others => .error (expected .expectedOperand others)
termination_by 3 * tokens.length
decreasing_by all_goals simp only [List.length_cons]; omega

end

/-- Parse all tokens as one expression. -/
def tokens (registry : Registry) (tokens : List Token) : Result Expr := do
  let (e, ⟨rest, _⟩) ← expression registry 0 tokens
  match front rest with
  | (_, .endOfInput) => return e
  | _ => throw (expected .expectedEnd rest)

end Parse

/-- Parse a text as an expression over the operations of a registry. -/
def parse (registry : Registry) (text : String) : Result Expr := do
  Parse.tokens registry (← Token.scan text)

end Symbolic
