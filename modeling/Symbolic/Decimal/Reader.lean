import Symbolic.Decimal.Shortest
import Symbolic.Text.Blank

/-!
# Reading numerals

Numerals may stand between blanks, carry a sign, use the digits of any script
and separate digits by single underscores.  A double may also have a fraction,
an exponent, or be one of the words for infinity and for an undefined value in
letters of either case.
-/

namespace Symbolic
namespace Decimal

/-- The longest run of digits at the front, and what follows it. -/
def spanDigits (cs : List Char) : List Char × List Char :=
  (cs.takeWhile Text.isDigit, cs.dropWhile Text.isDigit)

/-- Digits are taken off the front. -/
@[simp] theorem spanDigits_append
    (cs : List Char) :
    (spanDigits cs).1 ++ (spanDigits cs).2 = cs :=
  List.takeWhile_append_dropWhile

/-- Digits are cut off exactly where something else follows. -/
theorem spanDigits_of_digits
    {ds rest : List Char}
    (areDigits : ∀ c ∈ ds, Text.isDigit c = true)
    (noDigit : ∀ c tail, rest = c :: tail -> Text.isDigit c = false) :
    spanDigits (ds ++ rest) = (ds, rest) := by
  have stops : rest.takeWhile Text.isDigit = [] ∧
      rest.dropWhile Text.isDigit = rest := by
    cases rest with
    | nil => exact ⟨rfl, rfl⟩
    | cons c tail =>
      have := noDigit c tail rfl
      simp [this]
  rw [spanDigits, List.takeWhile_append_of_pos areDigits,
    List.dropWhile_append_of_pos areDigits, stops.1, stops.2, List.append_nil]

/-- The digits without underscores, provided that every underscore stands
between two digits. -/
def withoutUnderscores? : List Char -> Option (List Char)
  | [] => some []
  | '_' :: _ => none
  | c :: '_' :: d :: rest =>
    if Text.isDigit c && Text.isDigit d then
      (withoutUnderscores? (d :: rest)).map (c :: ·)
    else none
  | [_, '_'] => none
  | c :: rest => (withoutUnderscores? rest).map (c :: ·)

/-- A sign in front of a numeral and the rest. -/
def splitSign : List Char -> Bool × List Char
  | '-' :: rest => (true, rest)
  | '+' :: rest => (false, rest)
  | cs => (false, cs)

/-- An integer numeral: a sign and at least one digit. -/
def readInteger? (text : String) : Option Int := do
  let cs ← withoutUnderscores? (Text.trim Text.isNumeralBlank text.toList)
  let (negative, ds) := splitSign cs
  if ds.isEmpty || !ds.all Text.isDigit then none
  else if negative then some (-(valueOf ds : Int))
  else some (valueOf ds)

/-- The exponent behind an optional mark, or nothing if characters are left
that are no exponent. -/
def readExponent? : List Char -> Option Int
  | [] => some 0
  | mark :: rest =>
    if mark == 'e' || mark == 'E' then
      let (negative, ds) := splitSign rest
      if ds.isEmpty || !ds.all Text.isDigit then none
      else if negative then some (-(valueOf ds : Int))
      else some (valueOf ds)
    else none

/-- An unsigned decimal fraction: digits around an optional point and an
optional exponent. -/
def readFraction? (cs : List Char) : Option Fraction := do
  let (whole, rest) := spanDigits cs
  let (part, rest) :=
    match rest with
    | '.' :: behind => spanDigits behind
    | _ => ([], rest)
  if whole.isEmpty && part.isEmpty then none
  else
    let exponent ← readExponent? rest
    some ⟨valueOf (whole ++ part), exponent - part.length⟩

/-- The words for infinity. -/
def isInfinityWord (cs : List Char) : Bool :=
  let word := String.ofList (cs.map Char.toLower)
  word == "inf" || word == "infinity"

/-- The word for an undefined value. -/
def isUndefinedWord (cs : List Char) : Bool :=
  String.ofList (cs.map Char.toLower) == "nan"

/-- A double numeral, rounded to the nearest double. -/
def readDouble? (text : String) : Option Float := do
  let cs ← withoutUnderscores? (Text.trim Text.isNumeralBlank text.toList)
  let (negative, unsigned) := splitSign cs
  if isInfinityWord unsigned then some (ofSignAndBits negative infinityBits)
  else if isUndefinedWord unsigned then
    some (ofSignAndBits negative (infinityBits + exponentUnit / 2))
  else
    let fraction ← readFraction? unsigned
    some (ofSignAndBits negative fraction.nearestBits)

end Decimal
end Symbolic
