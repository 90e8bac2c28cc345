import Symbolic.Text.DecimalDigit

/-!
# Decimal numerals of natural numbers

`digits` writes a natural number without leading zeros and `valueOf` reads any
sequence of decimal digits.  Reading what was written gives the number back.
-/

namespace Symbolic
namespace Decimal

/-- The ASCII digit of a value below ten. -/
def digitChar (value : Nat) : Char :=
  Char.ofNat (48 + value)

/-- The decimal digits of a natural number, most significant first. -/
def digits (n : Nat) : List Char :=
  if n < 10 then [digitChar n] else digits (n / 10) ++ [digitChar (n % 10)]
termination_by n

/-- The number that a sequence of decimal digits denotes. -/
def valueOf (cs : List Char) : Nat :=
  cs.foldl (fun value c => 10 * value + Text.digitValue c) 0

@[simp] theorem valueOf_nil : valueOf [] = 0 := rfl

/-- A last digit is added to ten times the value of those before it. -/
@[simp] theorem valueOf_append_singleton
    (cs : List Char)
    (c : Char) :
    valueOf (cs ++ [c]) = 10 * valueOf cs + Text.digitValue c := by
  simp [valueOf]

/-- A digit has the value that it was made from. -/
theorem digitValue_digitChar
    (value : Nat)
    (isDigit : value < 10) :
    Text.digitValue (digitChar value) = value := by
  match value, isDigit with
  | 0, _ | 1, _ | 2, _ | 3, _ | 4, _ | 5, _ | 6, _ | 7, _ | 8, _ | 9, _ =>
    decide
  | _ + 10, tooLarge => omega

/-- A numeral has the value of its number. -/
@[simp] theorem valueOf_digits (n : Nat) : valueOf (digits n) = n := by
  induction n using Nat.strongRecOn with
  | ind n inductive_step =>
    rw [digits]
    split
    · next small => simp [valueOf, digitValue_digitChar n small]
    · next large =>
      rw [valueOf_append_singleton, inductive_step (n / 10) (by omega),
        digitValue_digitChar (n % 10) (by omega)]
      omega

/-- The characters from zero to nine are digits. -/
theorem isDigit_digitChar
    (value : Nat)
    (isDigit : value < 10) :
    Text.isDigit (digitChar value) = true := by
  match value, isDigit with
  | 0, _ | 1, _ | 2, _ | 3, _ | 4, _ | 5, _ | 6, _ | 7, _ | 8, _ | 9, _ =>
    decide
  | _ + 10, tooLarge => omega

/-- A numeral has at least one digit. -/
theorem digits_ne_nil (n : Nat) : digits n ≠ [] := by
  rw [digits]
  split <;> simp

/-- A numeral has nothing but digits. -/
theorem isDigit_of_mem_digits (n : Nat) :
    ∀ c ∈ digits n, Text.isDigit c = true := by
  induction n using Nat.strongRecOn with
  | ind n inductive_step =>
    intro c member
    rw [digits] at member
    split at member
    · next small =>
      obtain rfl := List.mem_singleton.1 member
      exact isDigit_digitChar n small
    · next large =>
      rcases List.mem_append.1 member with higher | lowest
      · exact inductive_step (n / 10) (by omega) c higher
      · obtain rfl := List.mem_singleton.1 lowest
        exact isDigit_digitChar (n % 10) (by omega)

/-- The numeral of a natural number. -/
def numeral (n : Nat) : String :=
  String.ofList (digits n)

/-- The numeral of an integer, with a minus sign in front when negative. -/
def signedNumeral (n : Int) : String :=
  if n < 0 then "-" ++ numeral n.natAbs else numeral n.natAbs

end Decimal
end Symbolic
