import Symbolic.Argument

/-!
# Errors

Errors are causes; their wording stands in one place, `Error.describe`.  Some
wordings quote a tree or a number, and if that cannot be written the error that
is reported is the failure to write it: this is what `Error.settle` decides.
-/

namespace Symbolic

/-- The activity that met a foreign object. -/
inductive Stage where
  | fingerprinting
  | comparison
  | unfolding
  | simplification
  | compilation
deriving DecidableEq, Repr

/-- Why two operands of an operation have no value. -/
inductive EvaluationFailure where
  | notConstant
  | fault (cause : Number.Fault)
  | described (cause reason : Option String)

/-- The bound that a simplification ran into. -/
inductive Bound where
  | iterations
  | depth
  | described (text : String)

/-- What an operation was looked up by. -/
inductive OperatorKey where
  | id (value : Int)
  | symbol (text : String)

/-- A limit of a simplification that a caller may choose. -/
inductive Limit where
  | iterations
  | depth
deriving DecidableEq, Repr

/-- What the parser met instead of what it needed. -/
inductive Found where
  | endOfInput
  | token (text : String)
deriving DecidableEq, Repr

/-- Why a text is no expression. -/
inductive SyntaxFault where
  | unexpectedCharacter (c : Char)
  | expectedOperand (found : Found)
  | expectedClosing (found : Found)
  | expectedEnd (found : Found)
  | unknownOperator (symbol : String)
  | minusWithoutProduct
  | described (text : String)
deriving DecidableEq, Repr

/-- Everything that can go wrong. -/
inductive Error where
  | invalidExpression (problem : String) (tree : Option Expr)
  | unknownOperand (stage : Stage) (object : Foreign)
  | invalidOperation
      (symbol : String)
      (kinds : List String)
      (reason : Option String)
  | emptyFold (symbol : String)
  | evaluation
      (symbol : String)
      (operands : List Argument)
      (failure : EvaluationFailure)
  | divergence (bound : Bound) (limit : Int) (tree : Option Expr)
  | unknownOperator (key : OperatorKey) (available : List String)
  | unknownVariable (name : String) (known : List String)
  | notAnExpression (position : Int) (fault : SyntaxFault)
  | notCommutative (symbol : String)
  | nothingToCollect
  | idTaken (id : Int)
  | symbolTaken (symbol : String)
  | limitTooSmall (limit : Limit) (value : Int)
  | missingLimit
  | missingAssignment (place : Nat)
  | repeatedVariables (names : List String)
  | literalTooLong (digits : Nat)
  | negativeWordExponent
  | shapeMismatch (left right : Nat)
  | notOneElement
  | integerTooLarge
  | missingValue (name : String)
  | argumentCount (names : List String) (given : Nat)
  | indexOutOfBounds (index size : Nat)
  | noOperation
  | tooManyDigits
  | unanswered (object : Foreign) (query : Query)

/-- The outcome of a computation that may fail. -/
abbrev Result := Except Error

/-- The name of an activity in error reports. -/
def Stage.label : Stage -> String
  | fingerprinting => "expression_hash"
  | comparison => "structural_equal"
  | unfolding => "unfold"
  | simplification => "simplify"
  | compilation => "compile_expression"

/-- The name of a query in error reports. -/
def Query.label : Query -> String
  | text => "_render"
  | outline => "pretty"
  | variableNames => "get_variables"
  | substitution => "substitute"
  | evaluation => "evaluate"
  | isConstant => "is_constant"
  | isZero => "is_zero"
  | isOne => "is_one"

/-- The wording of an arithmetic fault. -/
def Number.Fault.describe : Number.Fault -> String
  | divisionByZero => "division by zero"
  | realDivisionByZero => "float division by zero"
  | remainderByZero => "integer modulo by zero"
  | realRemainderByZero => "float modulo"
  | zeroToNegativePower => "0.0 cannot be raised to a negative power"
  | powerTooLarge => "(34, 'Numerical result out of range')"
  | complexPowerTooLarge => "complex exponentiation"
  | complexPower => "result is complex"
  | integerTooLarge => "int too large to convert to float"
  | quotientTooLarge => "integer division result too large for a float"

/-- The wording of a missing value behind the operands. -/
def EvaluationFailure.describe : EvaluationFailure -> String
  | notConstant => ": operands must be constants"
  | fault .complexPower => ": " ++ Number.Fault.complexPower.describe
  | fault cause => " (Original error: " ++ cause.describe ++ ")"
  | described cause reason =>
    (match reason with
      | some text => if text.isEmpty then "" else ": " ++ text
      | none => "") ++
    (match cause with
      | some text => " (Original error: " ++ text ++ ")"
      | none => "")

/-- The wording of a bound. -/
def Bound.describe : Bound -> String
  | iterations => "maximum iterations exceeded"
  | depth => "maximum depth exceeded"
  | described text => text

/-- The name of a limit. -/
def Limit.label : Limit -> String
  | iterations => "max_iterations"
  | depth => "max_depth"

/-- The wording of what an operation was looked up by. -/
def OperatorKey.describe : OperatorKey -> String
  | id value => Decimal.signedNumeral value
  | symbol text => Text.quoted text

/-- The wording of what the parser met. -/
def Found.describe : Found -> String
  | endOfInput => "end of input"
  | token text => Text.quoted text

/-- The wording of a fault in a text. -/
def SyntaxFault.describe : SyntaxFault -> String
  | unexpectedCharacter c =>
    "unexpected character " ++ Text.quoted (String.singleton c)
  | expectedOperand found => "expected an operand, got " ++ found.describe
  | expectedClosing found => "expected ')', got " ++ found.describe
  | expectedEnd found => "expected end of input, got " ++ found.describe
  | unknownOperator symbol => "unknown operator " ++ Text.quoted symbol
  | minusWithoutProduct => "unary minus needs a multiplicative operation"
  | described text => text

/-- The error that takes the place of one that cannot be written. -/
def Unwritable.error : Unwritable -> Error
  | tooManyDigits => .tooManyDigits
  | unanswered object query => .unanswered object query

namespace Error

/-- The wording of an error, unless something that it quotes cannot be
written. -/
def describe : Error -> Except Unwritable String
  | invalidExpression problem none => .ok problem
  | invalidExpression problem (some e) => do
    return problem ++ ": <" ++ (← e.writeText) ++ ">"
  | unknownOperand stage object =>
    .ok (stage.label ++ ": unsupported operand type " ++
      Text.quoted object.kind)
  | invalidOperation symbol kinds reason =>
    .ok ("Invalid operation '" ++ symbol ++ "' for types (" ++
      ", ".intercalate kinds ++ ")" ++ match reason with
      | some text => if text.isEmpty then "" else ": " ++ text
      | none => "")
  | emptyFold symbol =>
    .ok ("Cannot fold an empty list of terms with '" ++ symbol ++ "'")
  | evaluation symbol operands failure => do
    let shown ← operands.mapM Argument.write
    return "Cannot evaluate " ++ (" " ++ symbol ++ " ").intercalate shown ++
      failure.describe
  | divergence bound limit tree => do
    let place ←
      match tree with
      | some e => do pure (" while simplifying <" ++ (← e.writeText) ++ ">")
      | none => pure ""
    return "Simplification did not converge: " ++ bound.describe ++
      " (limit " ++ Decimal.signedNumeral limit ++ ")" ++ place
  | unknownOperator key available =>
    .ok ("Unknown operator: " ++ key.describe ++
      if available.isEmpty then "" else ". Available: " ++
        ", ".intercalate available)
  | unknownVariable name known =>
    .ok ("Variable '" ++ name ++ "' is not in the variable ordering " ++
      Text.quotedList known)
  | notAnExpression position fault =>
    .ok ("Parse error at position " ++ Decimal.signedNumeral position ++ ": " ++
      fault.describe)
  | notCommutative symbol =>
    .ok ("Cannot unfold non-commutative operation '" ++ symbol ++ "'")
  | nothingToCollect => .ok "Cannot gather an empty list of terms"
  | idTaken id =>
    .ok ("Operation id " ++ Decimal.signedNumeral id ++
      " is already registered")
  | symbolTaken symbol =>
    .ok ("Operation '" ++ symbol ++ "' is already registered")
  | limitTooSmall limit value =>
    .ok (limit.label ++ " must be at least 1, got " ++
      Decimal.signedNumeral value)
  | missingLimit =>
    .ok "'<' not supported between instances of 'list' and 'int'"
  | missingAssignment place =>
    .ok ("dictionary update sequence element #" ++ Decimal.numeral place ++
      " has length 0; 2 is required")
  | repeatedVariables names =>
    .ok ("Duplicate variables in ordering: " ++ Text.quotedList names)
  | literalTooLong digits =>
    .ok ("Exceeds the limit (4300 digits) for integer string conversion: " ++
      "value has " ++ Decimal.numeral digits ++
      " digits; use sys.set_int_max_str_digits() to increase the limit")
  | negativeWordExponent =>
    .ok "Integers to negative integer powers are not allowed."
  | shapeMismatch left right =>
    .ok ("operands could not be broadcast together with shapes (" ++
      Decimal.numeral left ++ ",) (" ++ Decimal.numeral right ++ ",) ")
  | notOneElement =>
    .ok "can only convert an array of size 1 to a Python scalar"
  | integerTooLarge => .ok "int too large to convert to float"
  | missingValue name => .ok (Text.quoted name)
  | argumentCount names given =>
    .ok ("Expected " ++ Decimal.numeral names.length ++ " arguments (" ++
      ", ".intercalate names ++ "), got " ++ Decimal.numeral given)
  | indexOutOfBounds index size =>
    .ok ("index " ++ Decimal.numeral index ++
      " is out of bounds for axis 0 with size " ++ Decimal.numeral size)
  | noOperation => .ok "'NoneType' object has no attribute 'id'"
  | tooManyDigits =>
    .ok ("Exceeds the limit (4300 digits) for integer string conversion; " ++
      "use sys.set_int_max_str_digits() to increase the limit")
  | unanswered object query =>
    .ok ("'" ++ object.kind ++ "' object has no attribute '" ++
      query.label ++ "'")

/-- The error that is reported: the error itself, or the failure to write what
it quotes. -/
def settle (e : Error) : Error :=
  match e.describe with
  | .ok _ => e
  | .error reason => reason.error

/-- The wording of the error that is reported. -/
def message (e : Error) : String :=
  match e.settle.describe with
  | .ok text => text
  | .error _ => ""

/-- The failure to write something can itself be written. -/
theorem describe_error_isOk
    (reason : Unwritable) :
    ∃ text, reason.error.describe = .ok text := by
  cases reason <;> exact ⟨_, rfl⟩

/-- What is reported always has a wording. -/
theorem describe_settle (e : Error) : e.settle.describe = .ok e.message := by
  have writable : ∃ text, e.settle.describe = .ok text := by
    unfold settle
    split
    · next text described => exact ⟨text, described⟩
    · next reason _ => exact describe_error_isOk reason
  obtain ⟨text, described⟩ := writable
  simp [message, described]

/-- The errors that speak about the expression at hand, as opposed to misuse of
the library or the failure to write something. -/
def isDiagnostic : Error -> Bool
  | invalidExpression _ _ => true
  | unknownOperand _ _ => true
  | invalidOperation _ _ _ => true
  | emptyFold _ => true
  | evaluation _ _ _ => true
  | divergence _ _ _ => true
  | unknownOperator _ _ => true
  | unknownVariable _ _ => true
  | notAnExpression _ _ => true
  | _ => false

end Error
end Symbolic
