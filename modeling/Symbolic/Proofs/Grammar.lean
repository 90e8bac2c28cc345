import Symbolic.Proofs.ParserEquations

/-!
# The grammar of expressions

Expressions are operands with registered operators between them; an operand is a
numeral, an identifier or an expression in parentheses, with any number of minus
signs in front. A reader that goes from left to right only has to know how many
parentheses are open and whether an operand must come next: its places follow
every derivation.
-/

namespace Symbolic
namespace Parse

/-- The nonterminals of the grammar. -/
inductive Nonterminal where
  | expression
  | operand

/-- An operator whose symbol is registered. -/
def IsBinary (registry : Registry) (token : Token) : Prop :=
  token.kind = .operator ∧ (registry.bySymbol? token.text).isSome = true

/-- The tokens derive from a nonterminal:

    expression := operand (binary operand)*
    operand := "-" operand | number | identifier | "(" expression ")"
-/
inductive Derives (registry : Registry) : Nonterminal ->
    List Token -> Prop where
  | single
      {tokens : List Token}
      (operand : Derives registry .operand tokens) :
      Derives registry .expression tokens
  | chain
      {tokens tokens' : List Token}
      {operator : Token}
      (expression : Derives registry .expression tokens)
      (binary : IsBinary registry operator)
      (operand : Derives registry .operand tokens') :
      Derives registry .expression (tokens ++ operator :: tokens')
  | minus
      {tokens : List Token}
      (position : Nat)
      (operand : Derives registry .operand tokens) :
      Derives registry .operand (⟨.operator, "-", position⟩ :: tokens)
  | number
      {token : Token}
      (isNumber : token.kind = .integer ∨ token.kind = .real) :
      Derives registry .operand [token]
  | identifier
      {token : Token}
      (isIdentifier : token.kind = .identifier) :
      Derives registry .operand [token]
  | parentheses
      {opening closing : Token}
      {tokens : List Token}
      (opens : opening.kind = .opening)
      (closes : closing.kind = .closing)
      (expression : Derives registry .expression tokens) :
      Derives registry .operand (opening :: (tokens ++ [closing]))

namespace Derives

variable {registry : Registry}

/-- An operator between two expressions. -/
theorem append
    {tokens tokens' : List Token}
    {operator : Token}
    (left : Derives registry .expression tokens)
    (binary : IsBinary registry operator)
    (right : Derives registry .expression tokens') :
    Derives registry .expression (tokens ++ operator :: tokens') := by
  generalize isExpression : Nonterminal.expression = nonterminal at right
  induction right with
  | single operand => exact left.chain binary operand
  | chain expression binary' operand inductive_step =>
    rw [← List.cons_append, ← List.append_assoc]
    exact (inductive_step rfl).chain binary' operand
  | _ => cases isExpression

/-- A minus sign in front of an expression. -/
theorem negated
    {tokens : List Token}
    (position : Nat)
    (expression : Derives registry .expression tokens) :
    Derives registry .expression (⟨.operator, "-", position⟩ :: tokens) := by
  generalize isExpression : Nonterminal.expression = nonterminal at expression
  induction expression with
  | single operand => exact .single (.minus position operand)
  | chain expression binary operand inductive_step =>
    rw [← List.cons_append]
    exact (inductive_step rfl).chain binary operand
  | _ => cases isExpression

/-- The end of the input is part of no derivation. -/
theorem kind_ne_endOfInput
    {nonterminal : Nonterminal}
    {tokens : List Token}
    (derives : Derives registry nonterminal tokens)
    {token : Token}
    (member : token ∈ tokens) :
    token.kind ≠ .endOfInput := by
  induction derives with
  | single operand inductive_step => exact inductive_step member
  | chain expression binary operand leftStep rightStep =>
    rcases List.mem_append.1 member with inLeft | inRight
    · exact leftStep inLeft
    · rcases List.mem_cons.1 inRight with rfl | inOperand
      · rw [binary.1]
        decide
      · exact rightStep inOperand
  | minus position operand inductive_step =>
    rcases List.mem_cons.1 member with rfl | inOperand
    · simp
    · exact inductive_step inOperand
  | number isNumber =>
    obtain rfl := List.mem_singleton.1 member
    rcases isNumber with isNumber | isNumber <;> rw [isNumber] <;> decide
  | identifier isIdentifier =>
    obtain rfl := List.mem_singleton.1 member
    rw [isIdentifier]
    decide
  | parentheses opens closes expression inductive_step =>
    rcases List.mem_cons.1 member with rfl | behind
    · rw [opens]
      decide
    · rcases List.mem_append.1 behind with inside | isLast
      · exact inductive_step inside
      · obtain rfl := List.mem_singleton.1 isLast
        rw [closes]
        decide

end Derives

/-! ## Reading from left to right -/

/-- Where a reader of tokens stands: how many parentheses are open, and whether
an operand must come next. -/
structure Place where
  depth : Nat
  needsOperand : Bool

namespace Place

variable (registry : Registry)

/-- The place behind a token, unless the token cannot stand here. -/
def next : Place -> Token -> Option Place
  | ⟨depth, true⟩, token =>
    match token.kind with
    | .integer | .real | .identifier => some ⟨depth, false⟩
    | .opening => some ⟨depth + 1, true⟩
    | .operator => if token.text = "-" then some ⟨depth, true⟩ else none
    | _ => none
  | ⟨depth, false⟩, token =>
    match token.kind, depth with
    | .operator, _ =>
      if (registry.bySymbol? token.text).isSome then some ⟨depth, true⟩
      else none
    | .closing, depth + 1 => some ⟨depth, false⟩
    | .endOfInput, 0 => some ⟨0, false⟩
    | _, _ => none

/-- The place behind some tokens. -/
def behind (place : Place) (tokens : List Token) : Option Place :=
  tokens.foldlM (next registry) place

@[simp] theorem behind_nil (place : Place) :
    place.behind registry [] = some place := rfl

@[simp] theorem behind_cons
    (place : Place)
    (token : Token)
    (tokens : List Token) :
    place.behind registry (token :: tokens) =
      (place.next registry token).bind fun place' =>
        place'.behind registry tokens :=
  List.foldlM_cons

@[simp] theorem behind_append (place : Place) (tokens tokens' : List Token) :
    place.behind registry (tokens ++ tokens') =
      (place.behind registry tokens).bind fun place' =>
        place'.behind registry tokens' :=
  List.foldlM_append

end Place

/-- Behind everything that derives from a nonterminal, the same parentheses are
open and an operand has been read. -/
theorem Derives.behind_eq
    {registry : Registry}
    {nonterminal : Nonterminal}
    {tokens : List Token}
    (derives : Derives registry nonterminal tokens)
    (depth : Nat) :
    Place.behind registry ⟨depth, true⟩ tokens = some ⟨depth, false⟩ := by
  induction derives generalizing depth with
  | single operand inductive_step => exact inductive_step depth
  | chain expression binary operand leftStep rightStep =>
    simp [leftStep, rightStep, Place.next, binary.1, binary.2]
  | minus position operand inductive_step => simp [inductive_step, Place.next]
  | number isNumber =>
    rcases isNumber with isNumber | isNumber <;> simp [Place.next, isNumber]
  | identifier isIdentifier => simp [Place.next, isIdentifier]
  | parentheses opens closes expression inductive_step =>
    simp [inductive_step, Place.next, opens, closes]

end Parse
end Symbolic
