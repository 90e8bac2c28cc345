import Symbolic.Decimal.Shortest

/-!
# Texts of doubles

The text of a double spells its shortest decimal fraction.  Exponents from -4
to 15 are written positionally and always with a point; all others with a
signed exponent of at least two digits.
-/

namespace Symbolic
namespace Decimal

/-- The choices of a decimal text: which exponents are written positionally, and
the least number of digits of an exponent. -/
structure Layout where
  lowestPositional : Int
  highestPositional : Int
  exponentWidth : Nat

/-- Positional from `0.0001` up to sixteen digits in front of the point, and
exponents of two digits or more. -/
def Layout.standard : Layout :=
  ⟨-4, 15, 2⟩

/-- Zeros in front of a numeral up to a given width. -/
def padded (width : Nat) (cs : List Char) : List Char :=
  List.replicate (width - cs.length) '0' ++ cs

/-- Digits with the point after `point` of them, zeros filling the gaps. -/
def positional (ds : List Char) (point : Int) : List Char :=
  if point ≤ 0 then
    '0' :: '.' :: (List.replicate (-point).toNat '0' ++ ds)
  else if (ds.length : Int) ≤ point then
    ds ++ List.replicate (point.toNat - ds.length) '0' ++ ['.', '0']
  else
    ds.take point.toNat ++ '.' :: ds.drop point.toNat

/-- One digit, the rest behind a point, and a signed exponent. -/
def scientific (layout : Layout) (ds : List Char) (exponent : Int) :
    List Char :=
  let significand :=
    match ds with
    | [] => []
    | [d] => [d]
    | d :: rest => d :: '.' :: rest
  let sign := if exponent < 0 then '-' else '+'
  significand ++ 'e' :: sign ::
    padded layout.exponentWidth (digits exponent.natAbs)

/-- The characters of a positive decimal fraction. -/
def Fraction.characters (layout : Layout) (fraction : Fraction) : List Char :=
  let ds := digits fraction.coefficient
  let point : Int := ds.length + fraction.exponent
  if layout.lowestPositional ≤ point - 1 &&
      point - 1 ≤ layout.highestPositional then
    positional ds point
  else
    scientific layout ds (point - 1)

/-- The characters of a finite unsigned bit pattern. -/
def magnitudeCharacters (bits : Nat) : List Char :=
  if bits = 0 then ['0', '.', '0']
  else (shortest bits).characters Layout.standard

/-- The text of a double. -/
def doubleText (x : Float) : String :=
  if isUndefined x then "nan"
  else
    let unsigned :=
      if isInfinite x then ['i', 'n', 'f']
      else magnitudeCharacters (unsignedBits x)
    String.ofList (if isNegative x then '-' :: unsigned else unsigned)

end Decimal
end Symbolic
