import Mathlib.Algebra.Group.Int.Even
import Mathlib.Algebra.Ring.Parity
import Mathlib.Data.List.Forall2
import Mathlib.Logic.Function.Basic
import Symbolic.Proofs.ParsedTrees
import Symbolic.Proofs.Reading

/-!
# Numerals in the place of a variable

Among the tokens of an expression, every identifier of a variable is replaced by
the numeral of a natural number.  The parser then builds a tree with the integer
value that the given tree has where the variable is that number.

The two trees differ in shape, because a minus sign in front of a numeral
belongs to the literal, while a minus sign in front of an identifier multiplies
by minus one, after the power that follows.  So the values agree only where
`KeepsSigns` holds: a minus sign, the variable and the sign of a power that
stand in a row must be followed by an exponent for which both readings are the
same.
-/

namespace Symbolic

open Function (update)

/-- The tree `e'` has the values that `e` has where the variable is the
number. -/
def Expr.AgreesAt (name : String) (n : Nat) (e e' : Expr) : Prop :=
  ∀ assignment : String -> Int,
    e'.integerValue assignment = e.integerValue (update assignment name n)

/-- The numeral of a number replaces the identifier of a variable; all other
tokens are kept, up to their positions. -/
inductive Token.Replaces (name : String) (n : Nat) : Token ->
    Token -> Prop where
  | numeral (position position' : Nat) :
    Replaces name n ⟨.identifier, name, position⟩
      ⟨.integer, Decimal.numeral n, position'⟩
  | kept
      {kind : TokenKind}
      {text : String}
      (position position' : Nat)
      (other : kind = .identifier -> text ≠ name) :
      Replaces name n ⟨kind, text, position⟩ ⟨kind, text, position'⟩

namespace Parse

/-- The tokens follow an operator or an opening parenthesis, or nothing, so that
an operand starts with them. -/
def StartsOperand (all tokens : List Token) : Prop :=
  ∃ before, all = before ++ tokens ∧
    ∀ token ∈ before.getLast?, token.kind = .operator ∨ token.kind = .opening

/-- A negated power of a number has the value of the power of the negated
number. -/
def CommutesWithSign (n : Nat) (exponent : Int) : Prop :=
  Odd exponent.toNat ∨ n = 0 ∧ exponent.toNat ≠ 0

/-- Wherever an operand starts with a minus sign, the variable and the sign of a
power, it does not matter whether the minus sign belongs to the base or to the
power. -/
def KeepsSigns (name : String) (n : Nat) (all : List Token) : Prop :=
  ∀ position position' position'' behind,
    StartsOperand all
      (⟨.operator, "-", position⟩ :: ⟨.identifier, name, position'⟩ ::
      ⟨.operator, "^", position''⟩ :: behind) ->
    ∀ exponent rest,
      plainExpression .standard Operation.power.precedence.level behind =
        .ok (exponent, rest) ->
      ∀ assignment : String -> Int, assignment name = n ->
        CommutesWithSign n (exponent.integerValue assignment)

theorem StartsOperand.suffix
    {all tokens : List Token}
    (starts : StartsOperand all tokens) :
    tokens <:+ all := by
  obtain ⟨before, rfl, -⟩ := starts
  exact List.suffix_append before tokens

/-- An operand starts behind an operator or an opening parenthesis. -/
theorem startsOperand_behind
    {all behind : List Token}
    {token : Token}
    (suffix : token :: behind <:+ all)
    (opens : token.kind = .operator ∨ token.kind = .opening) :
    StartsOperand all behind := by
  obtain ⟨before, rfl⟩ := suffix
  exact ⟨before ++ [token], by simp, by simpa using opens⟩

theorem CommutesWithSign.neg_pow
    {n : Nat}
    {exponent : Int}
    (commutes : CommutesWithSign n exponent) :
    (-(n : Int)) ^ exponent.toNat = -((n : Int) ^ exponent.toNat) := by
  rcases commutes with odd | ⟨rfl, notZero⟩
  · exact odd.neg_pow (n : Int)
  · simp [zero_pow notZero]

end Parse

/-! ## Values -/

namespace Expr.AgreesAt

variable {name : String} {n : Nat}

theorem const (value : Number) :
    AgreesAt name n (.const value) (.const value) := by
  intro assignment
  cases value <;> rfl

theorem int_var : AgreesAt name n (.var name) (.int n) := by
  intro assignment
  simp [Expr.integerValue]

theorem var {other : String} (different : other ≠ name) :
    AgreesAt name n (.var other) (.var other) := by
  intro assignment
  simp [Expr.integerValue, different]

theorem node
    {left left' right right' : Expr}
    (operation : Operation)
    (leftAgrees : AgreesAt name n left left')
    (rightAgrees : AgreesAt name n right right') :
    AgreesAt name n (.node operation left right)
      (.node operation left' right') := by
  intro assignment
  simp only [Expr.integerValue, leftAgrees assignment, rightAgrees assignment]

/-- The negated variable and the negative literal. -/
theorem negated :
    AgreesAt name n (.node .product (.int (-1)) (.var name)) (.int (-n)) := by
  intro assignment
  simp [Expr.integerValue, Operation.onIntegers, Operation.product,
    Operation.sum, Operation.difference]

/-- The negated power of the variable and the power of the negative literal. -/
theorem negatedPower
    {right right' : Expr}
    (rightAgrees : AgreesAt name n right right')
    (commutes : ∀ assignment : String -> Int, assignment name = n ->
      Parse.CommutesWithSign n (right.integerValue assignment)) :
    AgreesAt name n (.node .product (.int (-1))
      (.node .power (.var name) right)) (.node .power (.int (-n)) right') := by
  intro assignment
  have signs := (commutes (update assignment name n) (by simp)).neg_pow
  simp [Expr.integerValue, Operation.onIntegers, Operation.product,
    Operation.sum,
    Operation.difference, Operation.power, rightAgrees assignment, signs]

end Expr.AgreesAt

/-! ## Tokens -/

namespace Parse

variable {name : String} {n : Nat} {all : List Token}

/-- A token other than an identifier stays in front. -/
theorem exists_kept
    {kind : TokenKind}
    {text : String}
    {position : Nat}
    {behind tokens' : List Token}
    (replaced : List.Forall₂ (Token.Replaces name n)
      (⟨kind, text, position⟩ :: behind) tokens')
    (other : kind = .identifier -> text ≠ name) :
    ∃ position' behind', tokens' = ⟨kind, text, position'⟩ :: behind' ∧
      List.Forall₂ (Token.Replaces name n) behind behind' := by
  obtain ⟨token, behind', isKept, replacedBehind, rfl⟩ :=
    List.forall₂_cons_left_iff.1 replaced
  cases isKept with
  | numeral position position' => exact absurd rfl (other rfl)
  | kept position position' => exact ⟨position', behind', rfl, replacedBehind⟩

/-- The numeral stands where the variable stood. -/
theorem exists_numeral
    {position : Nat}
    {behind tokens' : List Token}
    (replaced : List.Forall₂ (Token.Replaces name n)
      (⟨.identifier, name, position⟩ :: behind) tokens') :
    ∃ position' behind', tokens' =
      ⟨.integer, Decimal.numeral n, position'⟩ :: behind' ∧
      List.Forall₂ (Token.Replaces name n) behind behind' := by
  obtain ⟨token, behind', isReplaced, replacedBehind, rfl⟩ :=
    List.forall₂_cons_left_iff.1 replaced
  cases isReplaced with
  | numeral position position' =>
    exact ⟨position', behind', rfl, replacedBehind⟩
  | kept position position' other => exact absurd rfl (other rfl)

/-- An operator in front was there before. -/
theorem exists_operator
    {symbol : String}
    {position' : Nat}
    {tokens behind' : List Token}
    (replaced : List.Forall₂ (Token.Replaces name n) tokens
      (⟨.operator, symbol, position'⟩ :: behind')) :
    ∃ position behind, tokens = ⟨.operator, symbol, position⟩ :: behind := by
  obtain ⟨token, behind, isKept, -, rfl⟩ :=
    List.forall₂_cons_right_iff.1 replaced
  cases isKept with
  | kept position position' => exact ⟨position, behind, rfl⟩

theorem EndsAt.replaced
    {registry : Registry}
    {minimum : Nat}
    {rest rest' : List Token}
    (ends : EndsAt registry minimum rest)
    (replaced : List.Forall₂ (Token.Replaces name n) rest rest') :
    EndsAt registry minimum rest' := by
  rintro symbol position' behind' rfl
  obtain ⟨position, behind, isFirst⟩ := exists_operator replaced
  exact ends symbol position behind isFirst

theorem NoPower.replaced
    {registry : Registry}
    {rest rest' : List Token}
    (ends : NoPower registry rest)
    (replaced : List.Forall₂ (Token.Replaces name n) rest rest') :
    NoPower registry rest' := by
  rintro exponential position' behind' isExponential rfl
  obtain ⟨position, behind, isFirst⟩ := exists_operator replaced
  exact ends exponential position behind isExponential isFirst

theorem NoMinus.replaced
    {tokens tokens' : List Token}
    (noMinus : NoMinus tokens)
    (replaced : List.Forall₂ (Token.Replaces name n) tokens tokens') :
    NoMinus tokens' := by
  rintro position' behind' rfl
  obtain ⟨position, behind, isFirst⟩ := exists_operator replaced
  exact noMinus position behind isFirst

/-- Where neither a numeral nor the variable stands in front, no numeral does
afterwards. -/
theorem NoNumeral.replaced
    {tokens tokens' : List Token}
    (noNumeral : NoNumeral tokens)
    (noVariable : ∀ position behind,
      tokens ≠ ⟨.identifier, name, position⟩ :: behind)
    (replaced : List.Forall₂ (Token.Replaces name n) tokens tokens') :
    NoNumeral tokens' := by
  rintro token behind' rfl
  obtain ⟨token, behind, isKept, -, rfl⟩ :=
    List.forall₂_cons_right_iff.1 replaced
  cases isKept with
  | numeral position position' => exact absurd rfl (noVariable position behind)
  | kept position position' => exact noNumeral ⟨_, _, position⟩ behind rfl

/-! ## Powers of the standard registry -/

/-- Behind everything that operators of powers may not follow, powers end. -/
theorem EndsAt.noPower
    {rest : List Token}
    (ends : EndsAt .standard Operation.power.precedence.level rest) :
    NoPower .standard rest := by
  rintro exponential position behind isExponential rfl
  obtain ⟨operation, found, below⟩ := ends _ position behind rfl
  cases isExponential
  cases found
  exact absurd below (by decide)

theorem NoPower.eq_of_yields
    {registry : Registry}
    {base e : Expr}
    {tokens rest : List Token}
    (ends : NoPower registry tokens)
    (yields : Yields registry (.powers base) tokens e rest) :
    e = base ∧ rest = tokens := by
  cases yields with
  | powersEnd base ends' => exact ⟨rfl, rfl⟩
  | power position isExponential exponent powers =>
    exact absurd rfl (ends _ position _ isExponential)

/-- One power behind an operand. -/
theorem yields_power
    {right : Expr}
    {behind rest : List Token}
    (base : Expr)
    (position : Nat)
    (exponent :
      Yields .standard (.expression Operation.power.precedence.level) behind
        right rest) :
    Yields .standard (.powers base) (⟨.operator, "^", position⟩ :: behind)
      (.node .power base right) rest :=
  .power position rfl exponent (.powersEnd _ (EndsAt.noPower exponent.endsAt))

/-- The precedences of the standard operations bind at most as strongly as
powers do. -/
theorem rightMinimum_le_power
    {symbol : String}
    {operation : Operation}
    (found : Registry.standard.bySymbol? symbol = some operation) :
    rightMinimum operation ≤ Operation.power.precedence.level := by
  have all : ∀ operation ∈ Registry.standard.operations,
      rightMinimum operation ≤ Operation.power.precedence.level := by
    decide
  exact all operation (Registry.mem_of_bySymbol?_eq_some found)

/-! ## Reading the replaced tokens -/

/-- However the variable is replaced, a part of the parser builds a tree with
the same values and leaves the same tokens. -/
def ReadsAlike
    (name : String)
    (n : Nat)
    (part : Part)
    (tokens : List Token)
    (e : Expr)
    (rest : List Token) : Prop :=
  ∀ tokens', List.Forall₂ (Token.Replaces name n) tokens tokens' ->
    ∃ e' rest', Yields .standard part tokens' e' rest' ∧ e.AgreesAt name n e' ∧
      List.Forall₂ (Token.Replaces name n) rest rest'

/-- What may follow an operand reads powers of it first. -/
def TakesPowers (follows : Expr -> List Token -> Prop) : Prop :=
  ∀ base right position behind rest,
    Yields .standard (.expression Operation.power.precedence.level) behind
      right rest ->
    follows (.node .power base right) rest ->
    follows base (⟨.operator, "^", position⟩ :: behind)

/-- However the variable is replaced, an operand is read that can be followed by
all that can follow operands with the same values.  The operand itself may
differ: a negated power is only read together with the power. -/
def OperandReadsAlike
    (name : String)
    (n : Nat)
    (tokens : List Token)
    (e : Expr)
    (rest : List Token) : Prop :=
  ∀ tokens', List.Forall₂ (Token.Replaces name n) tokens tokens' ->
    ∀ follows : Expr -> List Token -> Prop, TakesPowers follows ->
      (∀ e' rest', e.AgreesAt name n e' ->
        List.Forall₂ (Token.Replaces name n) rest rest' -> follows e' rest') ->
      ∃ e' rest', Yields .standard .unary tokens' e' rest' ∧ follows e' rest'

/-- What the replacement makes of a part of the parser that stands among all
tokens. -/
def Survives (name : String) (n : Nat) (all : List Token) :
    Part -> List Token -> Expr -> List Token -> Prop
  | .expression minimum, tokens, e, rest =>
    minimum ≤ Operation.power.precedence.level -> StartsOperand all tokens ->
      ReadsAlike name n (.expression minimum) tokens e rest
  | .operators minimum left, tokens, e, rest =>
    minimum ≤ Operation.power.precedence.level -> tokens <:+ all ->
      ∀ left', left.AgreesAt name n left' ->
        ReadsAlike name n (.operators minimum left') tokens e rest
  | .unary, tokens, e, rest =>
    StartsOperand all tokens -> OperandReadsAlike name n tokens e rest
  | .primary, tokens, e, rest =>
    StartsOperand all tokens -> ReadsAlike name n .primary tokens e rest
  | .powers base, tokens, e, rest =>
    tokens <:+ all ->
      (NoPower .standard tokens ∧ e = base ∧ rest = tokens) ∨
        ∃ position behind right, tokens = ⟨.operator, "^", position⟩ :: behind ∧
          e = .node .power base right ∧
          Yields .standard (.expression Operation.power.precedence.level) behind
            right rest ∧
          ReadsAlike name n (.expression Operation.power.precedence.level)
            behind right rest

/-- Operators of a precedence that powers have take powers of what stands in
front. -/
theorem takesPowers_operators
    {minimum : Nat}
    (atMost : minimum ≤ Operation.power.precedence.level)
    (good : Expr -> List Token -> Prop) :
    TakesPowers fun left rest =>
      ∃ e rest', Yields .standard (.operators minimum left) rest e rest' ∧
        good e rest' := by
  rintro base right position behind rest exponent ⟨e, rest', operators, isGood⟩
  exact ⟨e, rest', .operator position rfl atMost exponent operators, isGood⟩

theorem takesPowers_powers
    (good : Expr -> List Token -> Prop) :
    TakesPowers fun base rest =>
      ∃ e rest', Yields .standard (.powers base) rest e rest' ∧
        good e rest' := by
  rintro base right position behind rest exponent ⟨e, rest', powers, isGood⟩
  exact ⟨e, rest', .power position rfl exponent powers, isGood⟩

/-- Powers are read alike behind operands with the same values. -/
theorem powers_readAlike
    {base e : Expr}
    {tokens rest : List Token}
    (suffix : tokens <:+ all)
    (survives : Survives name n all (.powers base) tokens e rest)
    {base' : Expr}
    (agrees : base.AgreesAt name n base') :
    ReadsAlike name n (.powers base') tokens e rest := by
  intro tokens' replaced
  rcases survives suffix with
    ⟨ends, rfl, rfl⟩ | ⟨position, behind, right, rfl, rfl, -, alike⟩
  · exact ⟨base', tokens', .powersEnd base' (ends.replaced replaced), agrees,
      replaced⟩
  · obtain ⟨position', behind', rfl, replacedBehind⟩ :=
      exists_kept replaced (by simp)
    obtain ⟨right', rest', exponent, rightAgrees, replacedRest⟩ :=
      alike behind' replacedBehind
    exact ⟨_, rest', yields_power base' position' exponent,
      agrees.node .power rightAgrees, replacedRest⟩

/-- A minus sign in front of the variable belongs to the numeral that replaces
it. -/
theorem minus_variable_readsAlike
    (literal : integerLiteral (Decimal.numeral n) = .ok (n : Int))
    (keepsSigns : KeepsSigns name n all)
    {position position' : Nat}
    {behind rest : List Token}
    {e : Expr}
    (starts : StartsOperand all
      (⟨.operator, "-", position⟩ :: ⟨.identifier, name, position'⟩ :: behind))
    (survives : Survives name n all (.powers (.var name)) behind e rest) :
    OperandReadsAlike name n
      (⟨.operator, "-", position⟩ :: ⟨.identifier, name, position'⟩ :: behind)
      (.node .product (.int (-1)) e) rest := by
  intro tokens' replaced follows takesPowers holds
  obtain ⟨position₁, behind₁, rfl, replaced₁⟩ := exists_kept replaced (by simp)
  obtain ⟨position₂, behind', rfl, replacedBehind⟩ := exists_numeral replaced₁
  refine ⟨.int (-n), behind',
    .minusInteger position₁ position₂ behind' literal, ?_⟩
  have suffix : behind <:+ all :=
    ((List.suffix_cons _ _).trans (List.suffix_cons _ _)).trans starts.suffix
  rcases survives suffix with
    ⟨-, rfl, rfl⟩ | ⟨position'', later, right, rfl, rfl, exponent, alike⟩
  · exact holds _ behind' .negated replacedBehind
  · -- The power behind the literal is read next, with the literal as its base.
    obtain ⟨position₃, later', rfl, replacedLater⟩ :=
      exists_kept replacedBehind (by simp)
    obtain ⟨right', rest', exponent', rightAgrees, replacedRest⟩ :=
      alike later' replacedLater
    have commutes :=
      keepsSigns position position' position'' later starts right rest
      exponent.read_eq
    exact takesPowers _ right' position₃ later' rest' exponent'
      (holds _ rest' (.negatedPower rightAgrees commutes) replacedRest)

/-- A minus sign in front of anything else multiplies by minus one, as
before. -/
theorem minus_readsAlike
    {position : Nat}
    {behind rest rest' : List Token}
    {base e : Expr}
    (starts : StartsOperand all (⟨.operator, "-", position⟩ :: behind))
    (noNumeral : NoNumeral behind)
    (noVariable : ∀ position behind',
      behind ≠ ⟨.identifier, name, position⟩ :: behind')
    (operand : Yields .standard .unary behind base rest)
    (operandSurvives : Survives name n all .unary behind base rest)
    (powersSurvive : Survives name n all (.powers base) rest e rest') :
    OperandReadsAlike name n (⟨.operator, "-", position⟩ :: behind)
      (.node .product (.int (-1)) e) rest' := by
  intro tokens' replaced follows takesPowers holds
  obtain ⟨position', behind', rfl, replacedBehind⟩ :=
    exists_kept replaced (by simp)
  have suffix : rest <:+ all :=
    (operand.rest_suffix.trans (List.suffix_cons _ _)).trans starts.suffix
  obtain ⟨base', rest₁, readOperand, e', rest₂, readPowers, agrees,
      replacedRest⟩ :=
    operandSurvives (startsOperand_behind starts.suffix (.inl rfl)) behind'
      replacedBehind _ (takesPowers_powers fun e' rest'' =>
        e.AgreesAt name n e' ∧
          List.Forall₂ (Token.Replaces name n) rest' rest'')
      fun base' rest'' baseAgrees replacedRest =>
        powers_readAlike suffix powersSurvive baseAgrees rest'' replacedRest
  exact ⟨_, rest₂,
    .minus position' rfl (noNumeral.replaced noVariable replacedBehind)
    readOperand readPowers,
      holds _ rest₂ (.node .product (.const _) agrees) replacedRest⟩

/-- An identifier is an operand of its own. -/
theorem eq_var_of_yields
    {position : Nat}
    {behind rest : List Token}
    {e : Expr}
    (yields : Yields .standard .unary (⟨.identifier, name, position⟩ :: behind)
      e rest) :
    e = .var name ∧ rest = behind := by
  cases yields with
  | unsigned noMinus operand =>
    cases operand with
    | identifier => exact ⟨rfl, rfl⟩

/-! ### One part, when the parts it is made of survive -/

/-- An expression is read alike if its operand can be followed by its
operators. -/
theorem survives_expression
    {minimum : Nat}
    {tokens rest rest' : List Token}
    {left e : Expr}
    (operand : Yields .standard .unary tokens left rest)
    (operandSurvives : Survives name n all .unary tokens left rest)
    (operatorsSurvive :
      Survives name n all (.operators minimum left) rest e rest') :
    Survives name n all (.expression minimum) tokens e rest' := by
  intro atMost starts tokens' replaced
  have suffix : rest <:+ all := operand.rest_suffix.trans starts.suffix
  obtain ⟨left', rest₁, readOperand, e', rest₂, readOperators, agrees,
      replacedRest⟩ :=
    operandSurvives starts tokens' replaced _
      (takesPowers_operators atMost fun e' rest'' =>
        e.AgreesAt name n e' ∧
          List.Forall₂ (Token.Replaces name n) rest' rest'')
      fun left' rest'' leftAgrees replacedRest =>
        operatorsSurvive atMost suffix left' leftAgrees rest'' replacedRest
  exact ⟨e', rest₂, .expression readOperand readOperators, agrees,
    replacedRest⟩

/-- An operator is read alike with its right operand and the operators behind
that. -/
theorem survives_operator
    {minimum position : Nat}
    {symbol : String}
    {operation : Operation}
    {behind rest rest' : List Token}
    {left right e : Expr}
    (found : Registry.standard.bySymbol? symbol = some operation)
    (strong : minimum ≤ operation.precedence.level)
    (operand :
      Yields .standard (.expression (rightMinimum operation)) behind right rest)
    (operandSurvives : Survives name n all
      (.expression (rightMinimum operation)) behind right rest)
    (operatorsSurvive : Survives name n all
      (.operators minimum (.node operation left right)) rest e rest') :
    Survives name n all (.operators minimum left)
      (⟨.operator, symbol, position⟩ :: behind) e rest' := by
  intro atMost suffix left' leftAgrees tokens' replaced
  obtain ⟨position', behind', rfl, replacedBehind⟩ :=
    exists_kept replaced (by simp)
  have behindSuffix : behind <:+ all := (List.suffix_cons _ _).trans suffix
  obtain ⟨right', rest₁, readOperand, rightAgrees, replacedRest⟩ :=
    operandSurvives (rightMinimum_le_power found)
      (startsOperand_behind suffix (.inl rfl)) behind' replacedBehind
  obtain ⟨e', rest₂, readOperators, agrees, replacedRest'⟩ :=
    operatorsSurvive atMost (operand.rest_suffix.trans behindSuffix) _
      (leftAgrees.node operation rightAgrees) rest₁ replacedRest
  exact ⟨e', rest₂,
    .operator position' found strong readOperand readOperators, agrees,
    replacedRest'⟩

/-- A minus sign belongs to the variable behind it, and multiplies anything
else. -/
theorem survives_minus
    (literal : integerLiteral (Decimal.numeral n) = .ok (n : Int))
    (keepsSigns : KeepsSigns name n all)
    {position : Nat}
    {behind rest rest' : List Token}
    {base e : Expr}
    (noNumeral : NoNumeral behind)
    (operand : Yields .standard .unary behind base rest)
    (operandSurvives : Survives name n all .unary behind base rest)
    (powersSurvive : Survives name n all (.powers base) rest e rest') :
    Survives name n all .unary (⟨.operator, "-", position⟩ :: behind)
      (.node .product (.int (-1)) e) rest' := by
  intro starts
  by_cases isVariable :
    ∃ position' behind', behind = ⟨.identifier, name, position'⟩ :: behind'
  · obtain ⟨position', behind', rfl⟩ := isVariable
    obtain ⟨rfl, rfl⟩ := eq_var_of_yields operand
    exact minus_variable_readsAlike literal keepsSigns starts powersSurvive
  · have noVariable : ∀ position' behind',
        behind ≠ ⟨.identifier, name, position'⟩ :: behind' :=
      fun position' behind' isFirst =>
        isVariable ⟨position', behind', isFirst⟩
    exact minus_readsAlike starts noNumeral noVariable operand operandSurvives
      powersSurvive

/-- A minus sign in front of a numeral stays part of it. -/
theorem survives_minus_numeral
    {kind : TokenKind}
    {text : String}
    {position position' : Nat}
    {behind : List Token}
    {value : Number}
    (notIdentifier : kind ≠ .identifier)
    (read : ∀ position position' behind, Yields .standard .unary
      (⟨.operator, "-", position⟩ :: ⟨kind, text, position'⟩ :: behind)
      (.const value) behind) :
    Survives name n all .unary
      (⟨.operator, "-", position⟩ :: ⟨kind, text, position'⟩ :: behind)
      (.const value) behind := by
  intro starts tokens' replaced follows takesPowers holds
  obtain ⟨position₁, behind₁, rfl, replaced₁⟩ := exists_kept replaced (by simp)
  obtain ⟨position₂, behind', rfl, replacedBehind⟩ :=
    exists_kept replaced₁ fun isIdentifier => absurd isIdentifier notIdentifier
  exact ⟨_, behind', read position₁ position₂ behind',
    holds _ behind' (.const _) replacedBehind⟩

theorem survives_unsigned
    {tokens rest : List Token}
    {e : Expr}
    (noMinus : NoMinus tokens)
    (survives : Survives name n all .primary tokens e rest) :
    Survives name n all .unary tokens e rest := by
  intro starts tokens' replaced follows takesPowers holds
  obtain ⟨e', rest', readOperand, agrees, replacedRest⟩ :=
    survives starts tokens' replaced
  exact ⟨e', rest', .unsigned (noMinus.replaced replaced) readOperand,
    holds e' rest' agrees replacedRest⟩

/-- The variable becomes the numeral, every other one stays. -/
theorem survives_identifier
    (literal : integerLiteral (Decimal.numeral n) = .ok (n : Int))
    (other : String)
    (position : Nat)
    (behind : List Token) :
    Survives name n all .primary (⟨.identifier, other, position⟩ :: behind)
      (.var other) behind := by
  intro starts tokens' replaced
  by_cases isName : other = name
  · subst isName
    obtain ⟨position', behind', rfl, replacedBehind⟩ := exists_numeral replaced
    exact ⟨_, behind', .integer position' behind' literal, .int_var,
      replacedBehind⟩
  · obtain ⟨position', behind', rfl, replacedBehind⟩ :=
      exists_kept replaced fun _ => isName
    exact ⟨_, behind', .identifier other position' behind', .var isName,
      replacedBehind⟩

theorem survives_parentheses
    {text text' : String}
    {position position' : Nat}
    {behind rest : List Token}
    {e : Expr}
    (survives : Survives name n all (.expression 0) behind e
      (⟨.closing, text', position'⟩ :: rest)) :
    Survives name n all .primary (⟨.opening, text, position⟩ :: behind) e
      rest := by
  intro starts tokens' replaced
  obtain ⟨position₁, behind', rfl, replacedBehind⟩ :=
    exists_kept replaced (by simp)
  obtain ⟨e', rest₁, readInside, agrees, replacedRest⟩ :=
    survives (Nat.zero_le _) (startsOperand_behind starts.suffix (.inr rfl))
      behind' replacedBehind
  obtain ⟨position₂, rest', rfl, replacedRest'⟩ :=
    exists_kept replacedRest (by simp)
  exact ⟨e', rest', .parentheses text text' position₁ position₂ readInside,
    agrees, replacedRest'⟩

/-- An exponent takes all powers that follow it. -/
theorem survives_power
    {position : Nat}
    {behind rest rest' : List Token}
    {base right e : Expr}
    (exponent : Yields .standard
      (.expression Operation.power.precedence.level) behind right rest)
    (powers : Yields .standard (.powers (.node .power base right)) rest e rest')
    (survives : Survives name n all
      (.expression Operation.power.precedence.level) behind right rest) :
    Survives name n all (.powers base)
      (⟨.operator, "^", position⟩ :: behind) e rest' := by
  intro suffix
  have ends : NoPower .standard rest := EndsAt.noPower exponent.endsAt
  obtain ⟨rfl, rfl⟩ := ends.eq_of_yields powers
  exact .inr ⟨position, behind, right, rfl, rfl, exponent,
    survives (Nat.le_refl _) (startsOperand_behind suffix (.inl rfl))⟩

/-- The replacement goes through every part of the parser. -/
theorem survives_of_yields
    (literal : integerLiteral (Decimal.numeral n) = .ok (n : Int))
    (keepsSigns : KeepsSigns name n all)
    {part : Part}
    {tokens rest : List Token}
    {e : Expr}
    (yields : Yields .standard part tokens e rest) :
    Survives name n all part tokens e rest := by
  induction yields with
  | expression operand operators leftStep rightStep =>
    exact survives_expression operand leftStep rightStep
  | operatorsEnd left ends =>
    intro atMost suffix left' leftAgrees tokens' replaced
    exact ⟨left', tokens', .operatorsEnd left' (ends.replaced replaced),
      leftAgrees, replaced⟩
  | operator position found strong operand operators leftStep rightStep =>
    exact survives_operator found strong operand leftStep rightStep
  | minusInteger position position' behind isLiteral =>
    exact survives_minus_numeral (by simp) fun position position' behind =>
      .minusInteger position position' behind isLiteral
  | minusReal text position position' behind =>
    exact survives_minus_numeral (by simp) (.minusReal text)
  | minus position isMultiplicative noNumeral operand powers leftStep
      rightStep =>
    cases isMultiplicative
    exact survives_minus literal keepsSigns noNumeral operand leftStep rightStep
  | unsigned noMinus operand inductive_step =>
    exact survives_unsigned noMinus inductive_step
  | integer position behind isLiteral =>
    intro starts tokens' replaced
    obtain ⟨position', behind', rfl, replacedBehind⟩ :=
      exists_kept replaced (by simp)
    exact ⟨_, behind', .integer position' behind' isLiteral, .const _,
      replacedBehind⟩
  | real text position behind =>
    intro starts tokens' replaced
    obtain ⟨position', behind', rfl, replacedBehind⟩ :=
      exists_kept replaced (by simp)
    exact ⟨_, behind', .real text position' behind', .const _, replacedBehind⟩
  | identifier other position behind =>
    exact survives_identifier literal other position behind
  | parentheses text text' position position' inside inductive_step =>
    exact survives_parentheses inductive_step
  | powersEnd base ends => exact fun _ => .inl ⟨ends, rfl, rfl⟩
  | power position isExponential exponent powers leftStep rightStep =>
    cases isExponential
    exact survives_power exponent powers leftStep

/-- All tokens of an expression, with the numeral in the place of the
variable. -/
theorem exists_tokens_of_replaced
    (literal : integerLiteral (Decimal.numeral n) = .ok (n : Int))
    (keepsSigns : KeepsSigns name n all)
    {e : Expr}
    (parsed : tokens .standard all = .ok e)
    {all' : List Token}
    (replaced : List.Forall₂ (Token.Replaces name n) all all') :
    ∃ e', tokens .standard all' = .ok e' ∧ e.AgreesAt name n e' := by
  obtain ⟨rest, yields, isEnd⟩ := tokens_eq_ok.1 parsed
  have starts : StartsOperand all all := ⟨[], rfl, by simp⟩
  obtain ⟨e', rest', yields', agrees, replacedRest⟩ :=
    survives_of_yields literal keepsSigns yields (Nat.zero_le _) starts all'
      replaced
  refine ⟨e', tokens_eq_ok.2 ⟨rest', yields', ?_⟩, agrees⟩
  cases replacedRest with
  | nil => rfl
  | cons isKept replacedBehind =>
    cases isKept with
    | numeral position position' => cases isEnd
    | @kept kind text position position' other =>
      cases kind <;> first | rfl | cases isEnd

end Parse
end Symbolic
