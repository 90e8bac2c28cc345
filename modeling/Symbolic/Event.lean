import Symbolic.Error

/-!
# Events

While it works the library notes events: warnings about rules that a registry
lacks, and the steps of a simplification.  An event is written as one line with
its level, the part of the library that noted it and its text.
-/

namespace Symbolic

/-- Something worth noting. -/
inductive Event where
  | noPromotion (symbol : String)
  | noIdentity (symbol : String)
  | noInverse (symbol : String)
  | noMatcher (symbol : String)
  | parsed (tree : Expr)
  | unfolded (tree : Expr) (count : Nat)
  | collected (before after : Nat)
  | collision (tree reused : Expr)
  | recalled (tree : Expr)
  | returned (tree previous : Expr)
  | advanced (before after : Expr)

namespace Event

/-- A warning is always of interest, a step only to who follows the work. -/
def isWarning : Event -> Bool
  | noPromotion _ => true
  | noIdentity _ => true
  | noInverse _ => true
  | noMatcher _ => true
  | _ => false

/-- The part of the library that noted an event. -/
def source : Event -> String
  | noPromotion _ => "canonyx.core.operations"
  | noIdentity _ => "canonyx.core.operations"
  | noInverse _ => "canonyx.core.folding"
  | noMatcher _ => "canonyx.core.factoring"
  | parsed _ => "canonyx.cli"
  | unfolded _ _ => "canonyx.core.simplify"
  | collected _ _ => "canonyx.core.gathering"
  | collision _ _ => "canonyx.core.context"
  | recalled _ => "canonyx.core.simplify"
  | returned _ _ => "canonyx.core.simplify"
  | advanced _ _ => "canonyx.core.simplify"

/-- A tree between angle brackets. -/
def bracketed (e : Expr) : Except Unwritable String := do
  return "<" ++ (← e.writeText) ++ ">"

/-- The wording of an event. -/
def describe : Event -> Except Unwritable String
  | noPromotion symbol => .ok ("No promotion rule for '" ++ symbol ++ "'")
  | noIdentity symbol => .ok ("No identity element for '" ++ symbol ++ "'")
  | noInverse symbol =>
    .ok ("No registered inverse for commutative operation '" ++ symbol ++ "'")
  | noMatcher symbol =>
    .ok ("Factor matching is not supported for '" ++ symbol ++ "'")
  | parsed tree => do return "Parsed " ++ (← bracketed tree)
  | unfolded tree count => do
    return "Unfolded " ++ (← bracketed tree) ++ " into " ++
      Decimal.numeral count ++ " terms"
  | collected before after =>
    .ok ("Gathered " ++ Decimal.numeral before ++ " terms into " ++
      Decimal.numeral after)
  | collision tree reused => do
    return "Hash collision for " ++ (← bracketed tree) ++ ", reusing " ++
      (← bracketed reused)
  | recalled tree => do return "Cache hit for " ++ (← bracketed tree)
  | returned tree previous => do
    return "Rewrite of " ++ (← bracketed tree) ++ " returned to " ++
      (← bracketed previous)
  | advanced before after => do
    return "Rewrote " ++ (← bracketed before) ++ " to " ++ (← bracketed after)

/-- An event as one line. -/
def line (event : Event) : Except Unwritable String := do
  let text ← event.describe
  return (if event.isWarning then "WARNING " else "DEBUG ") ++ event.source ++
    ": " ++ text

/-- The lines of the events, in order: the warnings, or all events when the work
is followed.  They end before the first event that cannot be written, and the
second component says why it cannot. -/
def report (followed : Bool) : List Event -> List String × Option Unwritable
  | [] => ([], none)
  | event :: rest =>
    if followed || event.isWarning then
      match event.line with
      | .error obstacle => ([], some obstacle)
      | .ok line =>
        let (lines, obstacle) := report followed rest
        (line :: lines, obstacle)
    else report followed rest

end Event
end Symbolic
