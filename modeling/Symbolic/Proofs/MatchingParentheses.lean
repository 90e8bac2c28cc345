import Symbolic.Proofs.PrintedResults

/-!
# Matching parentheses

Two parentheses match if what stands between them is balanced.  In a balanced
text such a pair lies within one of its balanced parts.  Numerals, identifiers
and the symbols of operators have no parentheses.
-/

namespace Symbolic

/-! ## Balanced texts -/

namespace Text

/-- How many parentheses are open behind some characters, if some are open in
front of them and none is closed that was not opened. -/
def nesting : List Char -> Nat -> Option Nat
  | [], depth => some depth
  | c :: rest, depth =>
    if c = '(' then nesting rest (depth + 1)
    else if c = ')' then
      if depth = 0 then none else nesting rest (depth - 1)
    else nesting rest depth

/-- Every parenthesis has its counterpart. -/
def IsBalanced (cs : List Char) : Prop :=
  nesting cs 0 = some 0

instance (cs : List Char) : Decidable (IsBalanced cs) :=
  inferInstanceAs (Decidable (nesting cs 0 = some 0))

/-- No character is a parenthesis. -/
def HasNoParenthesis (cs : List Char) : Prop :=
  ∀ c ∈ cs, c ≠ '(' ∧ c ≠ ')'

/-- Texts are counted through one after the other. -/
theorem nesting_append (first second : List Char) (depth : Nat) :
    nesting (first ++ second) depth =
      (nesting first depth).bind (nesting second) := by
  fun_induction nesting first depth with
  | case1 depth => rfl
  | case2 rest depth inductive_step => exact inductive_step
  | case3 rest => rfl
  | case4 depth rest notOutside _ inductive_step =>
    rw [List.cons_append, nesting, if_neg (by decide), if_pos rfl,
      if_neg notOutside]
    exact inductive_step
  | case5 depth c rest noOpening noClosing inductive_step =>
    rw [List.cons_append, nesting, if_neg noOpening, if_neg noClosing]
    exact inductive_step

/-- Further parentheses around the characters stay open. -/
theorem nesting_add
    {cs : List Char}
    {depth depth' : Nat}
    (nested : nesting cs depth = some depth')
    (outside : Nat) :
    nesting cs (depth + outside) = some (depth' + outside) := by
  fun_induction nesting cs depth with
  | case1 depth =>
    cases nested
    rfl
  | case2 depth rest inductive_step =>
    rw [nesting, if_pos rfl, Nat.add_right_comm]
    exact inductive_step nested
  | case3 rest => cases nested
  | case4 depth rest notOutside _ inductive_step =>
    rw [nesting, if_neg (by decide), if_pos rfl, if_neg (by omega),
      Nat.sub_add_comm (Nat.one_le_iff_ne_zero.2 notOutside)]
    exact inductive_step nested
  | case5 depth c rest noOpening noClosing inductive_step =>
    rw [nesting, if_neg noOpening, if_neg noClosing]
    exact inductive_step nested

/-- A text without parentheses is balanced. -/
theorem HasNoParenthesis.isBalanced
    {cs : List Char}
    (lacks : HasNoParenthesis cs) :
    IsBalanced cs := by
  unfold IsBalanced
  induction cs with
  | nil => rfl
  | cons c rest inductive_step =>
    obtain ⟨first, later⟩ := List.forall_mem_cons.1 lacks
    rw [nesting, if_neg first.1, if_neg first.2]
    exact inductive_step later

/-- Characters without parentheses have no pair of them. -/
theorem HasNoParenthesis.ne_append
    {cs : List Char}
    (lacks : HasNoParenthesis cs)
    (before rest : List Char) :
    cs ≠ before ++ '(' :: rest := by
  rintro rfl
  exact (lacks '(' (by simp)).1 rfl

/-- Two balanced texts make a balanced one. -/
theorem IsBalanced.append
    {first second : List Char}
    (firstBalanced : IsBalanced first)
    (secondBalanced : IsBalanced second) :
    IsBalanced (first ++ second) := by
  rw [IsBalanced, nesting_append, firstBalanced]
  exact secondBalanced

/-- A balanced text stays balanced in parentheses. -/
theorem IsBalanced.enclosed
    {cs : List Char}
    (balanced : IsBalanced cs) :
    IsBalanced ('(' :: (cs ++ [')'])) := by
  rw [IsBalanced, nesting, if_pos rfl, nesting_append, nesting_add balanced 1]
  rfl

section Matching

variable {cs inner before after : List Char}

/-- Balanced characters do not end inside a pair of parentheses. -/
theorem IsBalanced.not_inside
    {begun missing : List Char}
    (balanced : IsBalanced (before ++ '(' :: begun)) :
    ¬IsBalanced (begun ++ missing) := by
  intro innerBalanced
  rw [IsBalanced, nesting_append] at balanced innerBalanced
  obtain ⟨depth, -, closes⟩ := Option.bind_eq_some_iff.1 balanced
  obtain ⟨depth', begins, -⟩ := Option.bind_eq_some_iff.1 innerBalanced
  rw [nesting, if_pos rfl] at closes
  have stillOpen := nesting_add begins (depth + 1)
  rw [Nat.zero_add, closes] at stillOpen
  simp only [Option.some.injEq] at stillOpen
  omega

/-- A pair of matching parentheses lies in the first of two balanced parts or
behind it. -/
theorem IsBalanced.locate
    {first second : List Char}
    (balanced : IsBalanced first)
    (innerBalanced : IsBalanced inner)
    (split : first ++ second = before ++ '(' :: (inner ++ ')' :: after)) :
    (∃ after', first = before ++ '(' :: (inner ++ ')' :: after') ∧
      after = after' ++ second) ∨
      ∃ before', before = first ++ before' ∧
        second = before' ++ '(' :: (inner ++ ')' :: after) := by
  rcases List.append_eq_append_iff.1 split with
    ⟨before', rfl, isSecond⟩ | ⟨tail, rfl, isTail⟩
  · exact .inr ⟨before', rfl, isSecond⟩
  · cases tail with
    | nil => exact .inr ⟨[], by simp, isTail.symm⟩
    | cons c tail =>
      obtain ⟨rfl, behind⟩ := List.cons_eq_cons.1 isTail
      rcases List.append_eq_append_iff.1 behind with
        ⟨rest, rfl, isRest⟩ | ⟨missing, rfl, -⟩
      · cases rest with
        | nil =>
          rw [List.append_nil] at balanced
          exact absurd (by rwa [List.append_nil] : IsBalanced (inner ++ []))
            balanced.not_inside
        | cons c after' =>
          obtain ⟨rfl, rfl⟩ := List.cons_eq_cons.1 isRest
          exact .inl ⟨after', by simp, rfl⟩
      · exact absurd innerBalanced balanced.not_inside

/-- The last parenthesis closes the first one around balanced characters. -/
theorem IsBalanced.eq_of_enclosed
    (balanced : IsBalanced cs)
    (innerBalanced : IsBalanced inner)
    (same : cs ++ [')'] = inner ++ ')' :: after) :
    cs = inner ∧ after = [] := by
  rcases List.append_eq_append_iff.1 same with
    ⟨rest, rfl, isRest⟩ | ⟨rest, rfl, isRest⟩
  · cases rest with
    | nil => exact ⟨by simp, by simpa using isRest.symm⟩
    | cons c rest => simp at isRest
  · cases rest with
    | nil => exact ⟨by simp, by simpa using isRest⟩
    | cons c rest =>
      obtain ⟨rfl, -⟩ := List.cons_eq_cons.1 isRest
      rw [IsBalanced, nesting_append, innerBalanced] at balanced
      cases balanced

end Matching
end Text

/-! ## Texts without parentheses -/

/-- The characters of numerals and of the words for infinite and undefined
doubles. -/
def Number.IsTextCharacter (c : Char) : Prop :=
  Text.isDigit c = true ∨ c ∈ ['+', '-', '.', 'e', 'i', 'n', 'f', 'a']

theorem Decimal.Numeral.IsWellFormed.forall_characters
    {numeral : Decimal.Numeral}
    (wellFormed : numeral.IsWellFormed) :
    ∀ c ∈ numeral.characters, Number.IsTextCharacter c := by
  have digits {cs : List Char} (allDigits : ∀ c ∈ cs, Text.isDigit c = true) :
      ∀ c ∈ cs, Number.IsTextCharacter c :=
    fun c member => .inl (allDigits c member)
  refine List.forall_mem_append.2
    ⟨digits wellFormed.whole, List.forall_mem_append.2 ⟨?_, ?_⟩⟩
  · unfold Decimal.Numeral.pointed
    cases isPart : numeral.part with
    | none => simp
    | some ds =>
      exact List.forall_mem_cons.2 ⟨.inr (by simp),
        digits (wellFormed.part ds isPart)⟩
  · unfold Decimal.Numeral.marked
    cases isExponent : numeral.exponent with
    | none => simp
    | some exponent =>
      obtain ⟨negative, ds⟩ := exponent
      refine List.forall_mem_cons.2 ⟨.inr (by simp),
        List.forall_mem_cons.2 ⟨.inr ?_, ?_⟩⟩
      · cases negative <;> simp
      · exact digits (wellFormed.exponent negative ds isExponent).2

theorem Number.forall_text (value : Number) :
    ∀ c ∈ value.text.toList, IsTextCharacter c := by
  have signed {cs : List Char} (all : ∀ c ∈ cs, IsTextCharacter c)
      (negative : Bool) :
      ∀ c ∈ (if negative then '-' :: cs else cs), IsTextCharacter c := by
    cases negative with
    | false => exact all
    | true => exact List.forall_mem_cons.2 ⟨.inr (by simp), all⟩
  cases value with
  | int n =>
    have all := signed (Decimal.isWellFormed_digits n.natAbs).forall_characters
      (decide (n < 0))
    simp only [Decimal.Numeral.characters, Decimal.Numeral.pointed,
      Decimal.Numeral.marked,
      Option.map_none, Option.getD_none, List.append_nil] at all
    unfold text Decimal.signedNumeral Decimal.numeral
    by_cases negative : n < 0 <;> simpa [negative] using all
  | real x =>
    unfold text Decimal.doubleText
    cases undefined : Decimal.isUndefined x with
    | true => simp [IsTextCharacter, undefined]
    | false =>
      have all : ∀ c ∈ (if Decimal.isInfinite x then ['i', 'n', 'f']
          else Decimal.magnitudeCharacters (Decimal.unsignedBits x)),
            IsTextCharacter c := by
        cases infinite : Decimal.isInfinite x with
        | true => simp [IsTextCharacter]
        | false =>
          have bounded :=
            Decimal.unsignedBits_lt_of_isFinite
              (Decimal.isFinite_of_not undefined infinite)
          obtain ⟨numeral, wellFormed, -, characters, -⟩ :=
            Decimal.exists_numeral_of_bits bounded
          simp only [Bool.false_eq_true, if_false, ← characters]
          exact wellFormed.forall_characters
      simpa [undefined] using signed all (Decimal.isNegative x)

theorem Number.hasNoParenthesis_text (value : Number) :
    Text.HasNoParenthesis value.text.toList := by
  intro c member
  constructor <;>
  · rintro rfl
    exact absurd (value.forall_text _ member)
      (by unfold IsTextCharacter; decide)

theorem Token.IsIdentifier.hasNoParenthesis
    {name : String}
    (identifier : Token.IsIdentifier name) :
    Text.HasNoParenthesis name.toList := by
  obtain ⟨c, cs, isName, starts, continues⟩ := identifier
  rw [isName]
  refine List.forall_mem_cons.2 ⟨?_, fun d member => ?_⟩
  · constructor <;>
    · rintro rfl
      exact absurd starts (by decide)
  · constructor <;>
    · rintro rfl
      exact absurd (continues _ member) (by decide)

theorem Operation.HasPlainSymbol.hasNoParenthesis
    {operation : Operation}
    (plain : operation.HasPlainSymbol) :
    Text.HasNoParenthesis operation.symbol.toList := by
  obtain ⟨c, symbol, operator⟩ := plain
  obtain ⟨-, -, -, noOpening, noClosing, -⟩ := Token.isOperator_cases operator
  rw [symbol]
  exact List.forall_mem_singleton.2 ⟨noOpening, noClosing⟩

end Symbolic
