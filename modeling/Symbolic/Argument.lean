import Symbolic.Expr.Text

/-!
# Arguments

Operators, substitutions and error reports take trees as well as bare numbers,
texts and truth values.  Only trees and bare numbers stand for operands.
-/

namespace Symbolic

/-- A tree or a bare value. -/
inductive Argument where
  | tree (e : Expr)
  | int (value : Int)
  | real (value : Float)
  | text (value : String)
  | truth (value : Bool)

/-- The name of the kind of a tree. -/
def Expr.kind : Expr -> String
  | blank => "Blank"
  | const (.int _) => "Integer"
  | const (.real _) => "Real"
  | var _ => "Variable"
  | node _ _ _ => "BinaryGrouping"
  | wrap _ => "BinaryGrouping"
  | foreign object => object.kind

namespace Argument

/-- The name of the kind of an argument. -/
def kind : Argument -> String
  | tree e => e.kind
  | int _ => "int"
  | real _ => "float"
  | text _ => "str"
  | truth _ => "bool"

/-- A bare number as an argument. -/
def ofNumber : Number -> Argument
  | .int value => int value
  | .real value => real value

/-- Write an argument the way error reports show it. -/
def write : Argument -> Except Unwritable String
  | tree e => e.writeForm
  | int value => (Expr.int value).writeText
  | real value => .ok (Decimal.doubleText value)
  | text value => .ok (Text.quoted value)
  | truth value => .ok (if value then "True" else "False")

end Argument
end Symbolic
