import Symbolic.Error

/-!
# Values and evaluation

A value is a number or an array of doubles.  Two integers are combined as 64-bit
words; as soon as a double or an array takes part, everything is converted to
doubles.  Arrays are combined element by element, and a number or an array of
one element is combined with every element of the other side.
-/

namespace Symbolic

/-- What an expression evaluates to. -/
inductive Value where
  | number (value : Number)
  | array (elements : List Float)

namespace Value

/-- Element by element combination of two arrays. -/
def broadcast
    (combine : Float -> Float -> Float)
    (left right : List Float) : Result (List Float) :=
  if left.length = right.length then .ok (List.zipWith combine left right)
  else
    match left, right with
    | [x], ys => .ok (ys.map (combine x))
    | xs, [y] => .ok (xs.map fun x => combine x y)
    | xs, ys => .error (.shapeMismatch xs.length ys.length)

/-- The outcome of a combination of words as a value. -/
def ofWordOutcome : Number.WordOutcome -> Result Value
  | .ok value => .ok (number value)
  | .error .negativeExponent => .error .negativeWordExponent

/-- Combine two values by a kernel.  Integers are in range if they fit in 64
bits; one that does not is wrapped to its last 64 bits here, and no array of
larger integers takes its place. -/
def combine (kernel : Kernel) : Value -> Value -> Result Value
  | number (.int a), number (.int b) =>
    ofWordOutcome (kernel.word (Int64.ofInt a) (Int64.ofInt b))
  | number x, number y =>
    .ok (number (.real (kernel.double x.toDouble y.toDouble)))
  | number x, array ys => .ok (array (ys.map (kernel.double x.toDouble)))
  | array xs, number y =>
    .ok (array (xs.map fun x => kernel.double x y.toDouble))
  | array xs, array ys => (broadcast kernel.double xs ys).map array

end Value

/-- The values of the variables. -/
abbrev Environment := String -> Option Value

/-- Evaluate a tree, the left operand before the right one. -/
def Expr.evaluate (environment : Environment) : Expr -> Result Value
  | .blank => .error (.invalidExpression "Cannot evaluate a blank operand" none)
  | .const value => .ok (.number value)
  | .var name =>
    match environment name with
    | some value => .ok value
    | none => .error (.missingValue name)
  | .node operation left right => do
    let x ← left.evaluate environment
    let y ← right.evaluate environment
    Value.combine operation.kernel x y
  | .wrap inner => inner.evaluate environment
  | .foreign object => .error (.unanswered object .evaluation)

end Symbolic
