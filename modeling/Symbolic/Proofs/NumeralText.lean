import Mathlib.Data.List.Induction
import Symbolic.Proofs.Rounding
import Symbolic.Parse

/-!
# Texts of numbers and their literals

A numeral has a whole part, perhaps a fraction and perhaps an exponent.
Wherever it is followed by something that cannot belong to it, the scanner takes
exactly its characters, and its literal has its value.  The texts of integers
and of finite doubles are numerals, and their literals are the numbers that were
written.
-/

namespace Symbolic
namespace Decimal

theorem valueOf_append
    (first second : List Char) :
    valueOf (first ++ second) = valueOf first * 10 ^ second.length + valueOf
      second := by
  induction second using List.reverseRecOn generalizing first with
  | nil => simp
  | append_singleton front last inductive_step =>
    rw [← List.append_assoc, valueOf_append_singleton, valueOf_append_singleton,
      inductive_step, List.length_append, List.length_singleton]
    ring

theorem valueOf_zeros (count : Nat) :
    valueOf (List.replicate count '0') = 0 := by
  induction count with
  | zero => rfl
  | succ count inductive_step =>
    rw [List.replicate_succ', valueOf_append_singleton, inductive_step]
    rfl

theorem isDigit_of_mem_zeros
    (count : Nat) :
    ∀ c ∈ List.replicate count '0', Text.isDigit c = true := by
  intro c member
  rw [List.eq_of_mem_replicate member]
  decide

/-- The parts of a numeral: the digits in front of the point and behind it, and
the sign and digits of an exponent. -/
structure Numeral where
  whole : List Char
  part : Option (List Char)
  exponent : Option (Bool × List Char)

namespace Numeral

/-- The characters of the point and of the digits behind it. -/
def pointed (numeral : Numeral) : List Char :=
  (numeral.part.map ('.' :: ·)).getD []

/-- The characters of the exponent. -/
def marked (numeral : Numeral) : List Char :=
  (numeral.exponent.map fun exponent =>
    'e' :: (if exponent.1 then '-' else '+') :: exponent.2).getD []

/-- The characters of a numeral. -/
def characters (numeral : Numeral) : List Char :=
  numeral.whole ++ (numeral.pointed ++ numeral.marked)

/-- The numeral of a double, which has a point or an exponent. -/
def isReal (numeral : Numeral) : Bool :=
  numeral.part.isSome || numeral.exponent.isSome

/-- The value of the exponent. -/
def scale (numeral : Numeral) : Int :=
  (numeral.exponent.map fun exponent =>
    if exponent.1 then -(valueOf exponent.2 : Int)
    else valueOf exponent.2).getD 0

/-- The value of a numeral. -/
def fraction (numeral : Numeral) : Fraction :=
  ⟨valueOf (numeral.whole ++ numeral.part.getD []),
    numeral.scale - (numeral.part.getD []).length⟩

/-- All parts are digits, and none but the part behind the point is empty. -/
structure IsWellFormed (numeral : Numeral) : Prop where
  whole : ∀ c ∈ numeral.whole, Text.isDigit c = true
  notEmpty : numeral.whole ≠ []
  part : ∀ ds, numeral.part = some ds -> ∀ c ∈ ds, Text.isDigit c = true
  exponent : ∀ negative ds, numeral.exponent = some (negative, ds) ->
    ds ≠ [] ∧ ∀ c ∈ ds, Text.isDigit c = true

/-- The characters behind a numeral that cannot belong to it. -/
def IsEnd (rest : List Char) : Prop :=
  ∀ c tail, rest = c :: tail ->
    Text.isDigit c = false ∧ c ≠ '.' ∧ c ≠ 'e' ∧ c ≠ 'E'

/-- An exponent, or what follows it, continues no digits and has no point in
front. -/
theorem first_of_marked
    {numeral : Numeral}
    {rest : List Char}
    (isEnd : IsEnd rest)
    (c : Char)
    (tail : List Char)
    (isFirst : numeral.marked ++ rest = c :: tail) :
    Text.isDigit c = false ∧ c ≠ '.' := by
  unfold marked at isFirst
  cases found : numeral.exponent with
  | none =>
    rw [found] at isFirst
    obtain ⟨noDigit, noPoint, -⟩ := isEnd c tail isFirst
    exact ⟨noDigit, noPoint⟩
  | some exponent =>
    rw [found] at isFirst
    simp only [Option.map_some, Option.getD_some, List.cons_append,
      List.cons.injEq] at isFirst
    obtain ⟨rfl, -⟩ := isFirst
    decide

namespace IsWellFormed

variable {numeral : Numeral} (wellFormed : numeral.IsWellFormed)

include wellFormed

theorem spanExponent_marked
    {rest : List Char}
    (isEnd : IsEnd rest) :
    Token.spanExponent (numeral.marked ++ rest) = (numeral.marked, rest) := by
  unfold marked
  cases found : numeral.exponent with
  | none =>
    cases rest with
    | nil => rfl
    | cons c tail =>
      obtain ⟨-, -, notLower, notUpper⟩ := isEnd c tail rfl
      simp [Token.spanExponent, notLower, notUpper]
  | some exponent =>
    obtain ⟨negative, ds⟩ := exponent
    obtain ⟨notEmpty, areDigits⟩ := wellFormed.exponent negative ds found
    have spanned := spanDigits_of_digits areDigits fun c tail isFirst =>
      (isEnd c tail isFirst).1
    have present : ds.isEmpty = false := by simpa using notEmpty
    cases negative <;>
      simp [Token.spanExponent, Token.spanSign, spanned, present]

/-- The scanner takes exactly the characters of a numeral. -/
theorem numeral?_characters
    {rest : List Char}
    (isEnd : IsEnd rest) :
    Token.numeral? (numeral.characters ++ rest) =
      some ⟨if numeral.isReal then .real else .integer, numeral.characters,
        rest⟩ := by
  have present : numeral.whole.isEmpty = false := by
    simpa using wellFormed.notEmpty
  have exponent := wellFormed.spanExponent_marked isEnd
  unfold characters pointed isReal
  cases found : numeral.part with
  | some ds =>
    have whole : spanDigits
        (numeral.whole ++ ('.' :: (ds ++ (numeral.marked ++ rest)))) =
        (numeral.whole, '.' :: (ds ++ (numeral.marked ++ rest))) := by
      apply spanDigits_of_digits wellFormed.whole
      rintro c tail ⟨⟩
      decide
    have part : spanDigits (ds ++ (numeral.marked ++ rest)) =
        (ds, numeral.marked ++ rest) :=
      spanDigits_of_digits (wellFormed.part ds found) fun c tail isFirst =>
        (first_of_marked isEnd c tail isFirst).1
    simp [Token.numeral?, whole, part, exponent, present]
  | none =>
    have whole : spanDigits (numeral.whole ++ (numeral.marked ++ rest)) =
        (numeral.whole, numeral.marked ++ rest) :=
      spanDigits_of_digits wellFormed.whole fun c tail isFirst =>
        (first_of_marked isEnd c tail isFirst).1
    have marks : numeral.marked.isEmpty = !numeral.exponent.isSome := by
      unfold marked
      cases numeral.exponent <;> rfl
    simp only [Option.map_none, Option.getD_none, List.nil_append,
      List.append_assoc, Option.isSome_none, Bool.false_or]
    unfold Token.numeral?
    simp only [whole]
    split
    · next behind isPoint =>
      exact absurd rfl (first_of_marked isEnd '.' behind isPoint).2
    · rw [exponent, present, marks]
      cases isExponent : numeral.exponent with
      | none => simp [marked, isExponent]
      | some _ => simp

theorem readExponent?_marked :
    readExponent? numeral.marked = some numeral.scale := by
  unfold marked scale
  cases found : numeral.exponent with
  | none => rfl
  | some exponent =>
    obtain ⟨negative, ds⟩ := exponent
    obtain ⟨notEmpty, areDigits⟩ := wellFormed.exponent negative ds found
    have present : ds.isEmpty = false := by simpa using notEmpty
    have all : ds.all Text.isDigit = true := List.all_eq_true.2 areDigits
    cases negative <;> simp [readExponent?, splitSign, present, all]

/-- Reading a numeral gives its value. -/
theorem readFraction?_characters :
    readFraction? numeral.characters = some numeral.fraction := by
  have present : numeral.whole.isEmpty = false := by
    simpa using wellFormed.notEmpty
  have isEnd : IsEnd [] := by
    rintro c tail ⟨⟩
  have exponent := wellFormed.readExponent?_marked
  unfold characters pointed fraction
  cases found : numeral.part with
  | some ds =>
    have whole : spanDigits (numeral.whole ++ ('.' :: (ds ++ numeral.marked))) =
        (numeral.whole, '.' :: (ds ++ numeral.marked)) := by
      apply spanDigits_of_digits wellFormed.whole
      rintro c tail ⟨⟩
      decide
    have part : spanDigits (ds ++ numeral.marked) = (ds, numeral.marked) := by
      apply spanDigits_of_digits (wellFormed.part ds found)
      intro c tail isFirst
      exact (first_of_marked isEnd c tail
        (by rw [List.append_nil]; exact isFirst)).1
    simp [readFraction?, whole, part, exponent, present]
  | none =>
    have first (c : Char) (tail : List Char)
        (isFirst : numeral.marked = c :: tail) :
        Text.isDigit c = false ∧ c ≠ '.' :=
      first_of_marked isEnd c tail (by rw [List.append_nil]; exact isFirst)
    have whole : spanDigits (numeral.whole ++ numeral.marked) =
        (numeral.whole, numeral.marked) :=
      spanDigits_of_digits wellFormed.whole fun c tail isFirst =>
        (first c tail isFirst).1
    simp only [Option.map_none, Option.getD_none, List.nil_append,
      List.append_nil]
    unfold readFraction?
    rw [whole]
    simp only
    split
    · next behind isPoint => exact absurd rfl (first '.' behind isPoint).2
    · simp [exponent, present]

end IsWellFormed
end Numeral

/-! ## Doubles -/

/-- A numeral with the characters and the value of a fraction. -/
structure Numeral.Spells (numeral : Numeral) (fraction : Fraction)
    (cs : List Char) : Prop where
  wellFormed : numeral.IsWellFormed
  real : numeral.isReal = true
  characters : numeral.characters = cs
  value : numeral.fraction.nearestBits = fraction.nearestBits

namespace Numeral

variable {ds : List Char} (areDigits : ∀ c ∈ ds, Text.isDigit c = true)
  (notEmpty : ds ≠ [])

include areDigits

/-- Zeros between the point and the digits. -/
theorem spells_leadingZeros (zeros : Nat) :
    Spells ⟨['0'], some (List.replicate zeros '0' ++ ds), none⟩
      ⟨valueOf ds, -((zeros + ds.length : Nat) : Int)⟩
      ('0' :: '.' :: (List.replicate zeros '0' ++ ds)) where
  wellFormed := by
    refine ⟨?_, by simp, ?_, by simp⟩
    · simp [show Text.isDigit '0' = true by decide]
    · rintro _ ⟨⟩ c member
      rcases List.mem_append.1 member with isZero | isOther
      · exact isDigit_of_mem_zeros zeros c isZero
      · exact areDigits c isOther
  real := rfl
  characters := by simp [characters, pointed, marked]
  value := by
    have coefficient :
        valueOf (['0'] ++ (List.replicate zeros '0' ++ ds)) = valueOf ds := by
      rw [← List.append_assoc, valueOf_append, List.singleton_append,
        ← List.replicate_succ, valueOf_zeros, Nat.zero_mul, Nat.zero_add]
    unfold fraction
    simp only [Option.getD_some, coefficient, scale, Option.map_none,
      Option.getD_none, List.length_append, List.length_replicate, Int.zero_sub]

include notEmpty

/-- Zeros between the digits and the point. -/
theorem spells_trailingZeros (zeros : Nat) :
    Spells ⟨ds ++ List.replicate zeros '0', some ['0'], none⟩
      ⟨valueOf ds, zeros⟩ (ds ++ List.replicate zeros '0' ++ ['.', '0']) where
  wellFormed := by
    refine ⟨?_, by simp [notEmpty], ?_, by simp⟩
    · intro c member
      rcases List.mem_append.1 member with isOther | isZero
      · exact areDigits c isOther
      · exact isDigit_of_mem_zeros zeros c isZero
    · rintro _ ⟨⟩
      simp [show Text.isDigit '0' = true by decide]
  real := rfl
  characters := by simp [characters, pointed, marked]
  value := by
    have coefficient : valueOf (ds ++ List.replicate zeros '0' ++ ['0']) =
        valueOf ds * 10 ^ (zeros + 1) := by
      rw [List.append_assoc, ← List.replicate_succ', valueOf_append,
        valueOf_zeros, List.length_replicate, Nat.add_zero]
    refine Eq.trans ?_
      (Fraction.nearestBits_mul_pow (valueOf ds) zeros (zeros + 1))
    unfold fraction
    simp only [Option.getD_some, coefficient, scale, Option.map_none,
      Option.getD_none]
    congr 2
    change 0 - 1 = (zeros : Int) - ((zeros + 1 : Nat) : Int)
    omega

/-- The point among the digits. -/
theorem spells_inside
    {place : Nat}
    (first : 0 < place)
    (last : place < ds.length) :
    Spells ⟨ds.take place, some (ds.drop place), none⟩
      ⟨valueOf ds, (place : Int) - ds.length⟩
      (ds.take place ++ '.' :: ds.drop place) where
  wellFormed := by
    refine ⟨?_, ?_, ?_, by simp⟩
    · exact fun c member => areDigits c (List.mem_of_mem_take member)
    · simp [notEmpty]
      omega
    · rintro _ ⟨⟩
      exact fun c member => areDigits c (List.mem_of_mem_drop member)
  real := rfl
  characters := by simp [characters, pointed, marked]
  value := by
    unfold fraction
    simp only [Option.getD_some, List.take_append_drop, scale, Option.map_none,
      Option.getD_none, List.length_drop]
    congr 2
    omega

/-- One digit in front of the point, and an exponent. -/
theorem spells_scientific
    (layout : Layout)
    (exponent : Int) :
    ∃ numeral : Numeral, numeral.Spells ⟨valueOf ds, exponent + 1 - ds.length⟩
      (scientific layout ds exponent) := by
  have padding : ∀ c ∈ padded layout.exponentWidth (digits exponent.natAbs),
      Text.isDigit c = true := by
    intro c member
    rcases List.mem_append.1 member with isZero | isOther
    · exact isDigit_of_mem_zeros _ c isZero
    · exact isDigit_of_mem_digits _ c isOther
  have padded_ne_nil :
      padded layout.exponentWidth (digits exponent.natAbs) ≠ [] := by
    simp [padded, digits_ne_nil]
  have paddedValue :
      valueOf (padded layout.exponentWidth (digits exponent.natAbs)) =
      exponent.natAbs := by
    rw [padded, valueOf_append, valueOf_zeros, valueOf_digits, Nat.zero_mul,
      Nat.zero_add]
  have isScale :
      (if exponent < 0 then -(exponent.natAbs : Int) else exponent.natAbs) =
      exponent := by
    split <;> omega
  match ds, notEmpty with
  | [d], _ =>
    refine ⟨⟨[d], none, some (decide (exponent < 0), padded layout.exponentWidth
      (digits exponent.natAbs))⟩, ⟨areDigits, by simp, by simp, ?_⟩,
        rfl, ?_, ?_⟩
    · rintro _ _ ⟨⟩
      exact ⟨padded_ne_nil, padding⟩
    · simp [characters, pointed, marked, scientific]
    · simp only [fraction, scale, Option.map_some, Option.getD_none,
        Option.getD_some,
        decide_eq_true_eq, paddedValue, isScale, List.append_nil,
          List.length_nil,
        List.length_singleton]
      congr 2
      omega
  | d :: next :: rest, _ =>
    refine ⟨⟨[d], some (next :: rest),
      some (decide (exponent < 0), padded layout.exponentWidth
      (digits exponent.natAbs))⟩, ⟨?_, by simp, ?_, ?_⟩, rfl, ?_, ?_⟩
    · intro c member
      obtain rfl := List.mem_singleton.1 member
      exact areDigits c List.mem_cons_self
    · rintro _ ⟨⟩
      exact fun c member => areDigits c (List.mem_cons_of_mem d member)
    · rintro _ _ ⟨⟩
      exact ⟨padded_ne_nil, padding⟩
    · simp [characters, pointed, marked, scientific]
    · simp only [fraction, scale, Option.map_some, Option.getD_some,
        decide_eq_true_eq,
        paddedValue, isScale, List.singleton_append, List.length_cons]
      congr 2
      omega

end Numeral

/-- Digits with a point are a numeral. -/
theorem exists_spells_positional
    {ds : List Char}
    (areDigits : ∀ c ∈ ds, Text.isDigit c = true)
    (notEmpty : ds ≠ [])
    (exponent : Int) :
    ∃ numeral : Numeral,
      numeral.Spells ⟨valueOf ds, exponent⟩
        (positional ds (ds.length + exponent)) := by
  unfold positional
  split
  · next left =>
    have isExponent : exponent =
        -(((-((ds.length : Int) + exponent)).toNat + ds.length : Nat) :
          Int) := by
      omega
    have spelled := Numeral.spells_leadingZeros areDigits
      (-((ds.length : Int) + exponent)).toNat
    rw [← isExponent] at spelled
    exact ⟨_, spelled⟩
  · split
    · next right =>
      have isExponent : exponent =
          (((ds.length : Int) + exponent).toNat - ds.length : Nat) := by
        omega
      have spelled := Numeral.spells_trailingZeros areDigits notEmpty
        (((ds.length : Int) + exponent).toNat - ds.length)
      rw [← isExponent] at spelled
      exact ⟨_, spelled⟩
    · next inside =>
      have isExponent : exponent =
          (((ds.length : Int) + exponent).toNat : Int) - ds.length := by
        omega
      have spelled := Numeral.spells_inside areDigits notEmpty
        (show 0 < ((ds.length : Int) + exponent).toNat by omega)
        (show ((ds.length : Int) + exponent).toNat < ds.length by omega)
      rw [← isExponent] at spelled
      exact ⟨_, spelled⟩

/-- The characters of a fraction are a numeral of its value. -/
theorem Fraction.exists_spells
    (layout : Layout)
    (fraction : Fraction) :
    ∃ numeral : Numeral,
      numeral.Spells fraction (fraction.characters layout) := by
  obtain ⟨coefficient, exponent⟩ := fraction
  have areDigits := isDigit_of_mem_digits coefficient
  have notEmpty := digits_ne_nil coefficient
  have positionally := exists_spells_positional areDigits notEmpty exponent
  have scientifically := Numeral.spells_scientific areDigits notEmpty layout
    ((digits coefficient).length + exponent - 1)
  have isExponent : ((digits coefficient).length : Int) + exponent - 1 + 1 -
      (digits coefficient).length = exponent := by
    omega
  rw [isExponent] at scientifically
  rw [valueOf_digits] at positionally scientifically
  unfold Fraction.characters
  dsimp only
  split
  · exact positionally
  · exact scientifically

/-- The characters of a finite unsigned bit pattern are a numeral that rounds to
it. -/
theorem exists_numeral_of_bits
    {bits : Nat}
    (bounded : bits < infinityBits) :
    ∃ numeral : Numeral, numeral.IsWellFormed ∧ numeral.isReal = true ∧
      numeral.characters = magnitudeCharacters bits ∧
        numeral.fraction.nearestBits = bits := by
  unfold magnitudeCharacters
  split
  · next zero =>
    have isZero : ∀ c ∈ ['0'], Text.isDigit c = true :=
      List.all_eq_true.1 (by decide)
    have spelled := Numeral.spells_trailingZeros isZero (by decide) 0
    refine ⟨_, spelled.wellFormed, spelled.real, spelled.characters, ?_⟩
    rw [zero]
    rfl
  · next positive =>
    obtain ⟨numeral, spelled⟩ := (shortest bits).exists_spells Layout.standard
    refine ⟨numeral, spelled.wellFormed, spelled.real, spelled.characters, ?_⟩
    rw [spelled.value]
    exact nearestBits_shortest positive bounded

end Decimal
end Symbolic
