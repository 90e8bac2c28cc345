import Symbolic.Expr.Basic
import Symbolic.Text.Quoted

/-!
# Texts of expression trees

A tree has three texts.  Its infix text has the parentheses that the parser
needs to rebuild the tree, its form spells out every constructor, and its
outline lists one node a line.  The texts are total functions; whether a tree
may be written at all is decided apart, by `unwritable?`, which finds the first
leaf from left to right that cannot be written.
-/

namespace Symbolic

/-- A question that an operand answers and a foreign object does not. -/
inductive Query where
  | text
  | outline
  | variableNames
  | substitution
  | evaluation
  | isConstant
  | isZero
  | isOne
deriving DecidableEq, Repr

/-- Why a tree cannot be written. -/
inductive Unwritable where
  | tooManyDigits
  | unanswered (object : Foreign) (query : Query)

namespace Expr

/-- The text in parentheses. -/
def parenthesized (text : String) : String :=
  "(" ++ text ++ ")"

/-- Whether an operand under `child` needs parentheses as an operand of
`parent`, so that the parser rebuilds the same tree. -/
def isEnclosed (parent child : Operation) (isRight : Bool) : Bool :=
  if child.precedence.level < parent.precedence.level then true
  else if parent.precedence.level < child.precedence.level then false
  else if isRight then !parent.isRightAssociative
  else parent.isRightAssociative

/-- The infix text of a tree that is an operand of `parent`, or a whole text. -/
def infixText (parent : Option Operation) (isRight : Bool) : Expr -> String
  | blank => "_"
  | const value =>
    if parent.isSome && value.isNegative then parenthesized value.text
    else value.text
  | var name => name
  | node operation left right =>
    let text :=
      left.infixText (some operation) false ++ operation.symbol ++
        right.infixText (some operation) true
    if parent.any fun outer => isEnclosed outer operation isRight then
      parenthesized text
    else text
  | wrap inner => inner.infixText parent isRight
  | foreign object => object.text

/-- The infix text of a tree. -/
def text (e : Expr) : String :=
  e.infixText none false

/-- The form of a tree, with every constructor spelled out. -/
def form : Expr -> String
  | blank => "Blank()"
  | const (.int value) => "Integer(" ++ Number.text (.int value) ++ ")"
  | const (.real value) => "Real(" ++ Number.text (.real value) ++ ")"
  | var name => "Variable(" ++ Text.quoted name ++ ")"
  | node operation left right =>
    "BinaryGrouping(" ++ Text.quoted operation.symbol ++ ", " ++
      left.form ++ ", " ++ right.form ++ ")"
  | wrap inner => "BinaryGrouping(None, " ++ inner.form ++ ")"
  | foreign object => object.form

/-- One line of an outline. -/
def outlineLine (indent : Int) (label : String) : String :=
  String.ofList (List.replicate (4 * indent).toNat ' ') ++ "<" ++ label ++ ">"

/-- The outline of a tree, one node a line. -/
def outline (indent : Int) : Expr -> String
  | blank => outlineLine indent "blank"
  | const (.int value) =>
    outlineLine indent ("integer:" ++ Number.text (.int value))
  | const (.real value) =>
    outlineLine indent ("real:" ++ Number.text (.real value))
  | var name => outlineLine indent ("variable:" ++ name)
  | node operation left right =>
    outlineLine indent ("op:" ++ operation.symbol) ++ "\n" ++
      left.outline (indent + 1) ++ "\n" ++ right.outline (indent + 1)
  | wrap inner => inner.outline indent
  | foreign object => outlineLine indent object.text

/-- The first leaf that cannot be written, foreign objects being refused when
they would have to answer the given query. -/
def unwritable? (query : Option Query) : Expr -> Option Unwritable
  | const value => if value.isWritable then none else some .tooManyDigits
  | node _ left right => (left.unwritable? query).or (right.unwritable? query)
  | wrap inner => inner.unwritable? query
  | foreign object => query.map (Unwritable.unanswered object)
  | _ => none

/-- A text, provided that nothing keeps it from being written. -/
def written (obstacle : Option Unwritable) (text : String) :
    Except Unwritable String :=
  match obstacle with
  | some reason => .error reason
  | none => .ok text

/-- Write a tree as infix text.  A foreign object alone writes itself. -/
def writeText : Expr -> Except Unwritable String
  | foreign object => .ok object.text
  | e => written (e.unwritable? (some .text)) e.text

/-- Write the form of a tree. -/
def writeForm (e : Expr) : Except Unwritable String :=
  written (e.unwritable? none) e.form

/-- Write the outline of a tree. -/
def writeOutline (indent : Int) (e : Expr) : Except Unwritable String :=
  written (e.unwritable? (some .outline)) (e.outline indent)

/-- What nothing obstructs is written. -/
@[simp] theorem written_none (text : String) :
    written none text = .ok text := rfl

end Expr
end Symbolic
