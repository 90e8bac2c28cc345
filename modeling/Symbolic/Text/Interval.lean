/-!
# Character classes given by intervals

A class of characters is a list of closed intervals of code points.  The
tables of the neighbouring modules are lists of this kind, ordered and
without overlap.
-/

namespace Symbolic
namespace Text

/-- A closed interval of code points. -/
structure Interval where
  first : Nat
  last : Nat

/-- Membership of one character in one interval. -/
def Interval.holds (interval : Interval) (c : Char) : Bool :=
  decide (interval.first ≤ c.toNat) && decide (c.toNat ≤ interval.last)

/-- Membership of one character in a class given by its intervals. -/
def inIntervals (intervals : List Interval) (c : Char) : Bool :=
  intervals.any fun interval => interval.holds c

end Text
end Symbolic
