import Symbolic.Proofs.Regrouping
import Symbolic.Proofs.ReplacedText

/-!
# Texts without parentheses

A text of numerals and identifiers between operators, without parentheses and
signs, is cut into the pieces of a bracketing without parentheses, wherever it
has white space.  Regrouping adds no parentheses, and a grouped bracketing
without parentheses is the one that is printed.  So the parsed tree is printed
as the text without its white space.
-/

namespace Symbolic

/-! ## Numerals without superfluous zeros -/

namespace Decimal

theorem digitChar_digitValue
    {c : Char}
    (digit : c.isDigit = true) :
    Text.digitValue c < 10 ∧ digitChar (Text.digitValue c) = c := by
  have range : 48 ≤ c.toNat ∧ c.toNat ≤ 57 := Char.isDigit_iff_toNat.1 digit
  have isChar : digitChar (c.toNat - 48) = c := by
    rw [digitChar, Nat.add_sub_cancel' range.1, Char.ofNat_toNat]
  have isValue := digitValue_digitChar (c.toNat - 48) (by omega)
  rw [isChar] at isValue
  rw [isValue]
  exact ⟨by omega, isChar⟩

/-- ASCII digits that do not start with a zero are the numeral of the number
that they denote. -/
theorem digits_valueOf
    {first : Char}
    {later : List Char}
    (allDigits : ∀ c ∈ first :: later, c.isDigit = true)
    (noZero : first ≠ '0') :
    0 < valueOf (first :: later) ∧
      digits (valueOf (first :: later)) = first :: later := by
  induction later using List.reverseRecOn with
  | nil =>
    obtain ⟨small, isChar⟩ :=
      digitChar_digitValue (allDigits first List.mem_cons_self)
    have value : valueOf [first] = Text.digitValue first := by simp [valueOf]
    rw [value, digits, if_pos small, isChar]
    refine ⟨Nat.pos_of_ne_zero fun zero => noZero ?_, rfl⟩
    rw [← isChar, zero]
    rfl
  | append_singleton later last inductive_step =>
    rw [← List.cons_append] at allDigits ⊢
    obtain ⟨allDigits, lastDigit⟩ := List.forall_mem_append.1 allDigits
    obtain ⟨positive, isNumeral⟩ := inductive_step allDigits
    obtain ⟨small, isChar⟩ :=
      digitChar_digitValue (lastDigit last (List.mem_singleton_self last))
    rw [valueOf_append_singleton]
    generalize valueOf (first :: later) = value at positive isNumeral
    have quotient : (10 * value + Text.digitValue last) / 10 = value := by omega
    have remainder : (10 * value + Text.digitValue last) % 10 =
        Text.digitValue last := by omega
    rw [digits, if_neg (by omega), quotient, remainder, isNumeral, isChar]
    exact ⟨by omega, rfl⟩

/-- ASCII digits without a superfluous zero are the numeral of a number, which
is short if the digits are few. -/
theorem exists_digits
    {ds : List Char}
    (present : ds ≠ [])
    (allDigits : ∀ c ∈ ds, c.isDigit = true)
    (noZero : ds.head? = some '0' -> ds = ['0']) :
    ∃ n, ds = digits n ∧ n < 10 ^ ds.length := by
  obtain ⟨n, isNumeral⟩ : ∃ n, ds = digits n := by
    obtain ⟨first, later, rfl⟩ := List.exists_cons_of_ne_nil present
    by_cases zero : first = '0'
    · subst zero
      exact ⟨0, by rw [noZero rfl, digits]; rfl⟩
    · exact ⟨_, (digits_valueOf allDigits zero).2.symm⟩
  refine ⟨n, isNumeral, ?_⟩
  by_contra large
  have longer := lt_length_digits (Nat.le_of_not_lt large)
  rw [← isNumeral] at longer
  exact Nat.lt_irrefl _ longer

end Decimal

/-- An integer with fewer digits than the limit may be read. -/
theorem Number.isReadable_of_lt
    {n : Nat}
    (small : n < 10 ^ digitLimit) :
    (int n).IsReadable := by
  unfold IsReadable isWritable
  generalize digitLimit = limit at small ⊢
  exact decide_eq_true small

/-! ## Operands and white space -/

namespace Token

theorem isBreak_nil : IsBreak [] := by
  intro c tail isFirst
  cases isFirst

/-- In front of white space and a break, an operand ends. -/
theorem IsBreak.blanks_append
    {rest : List Char}
    (isBreak : IsBreak rest)
    {blanks : List Char}
    (allBlank : ∀ c ∈ blanks, Text.isBlank c = true) :
    IsBreak (blanks ++ rest) := by
  cases blanks with
  | nil => exact isBreak
  | cons c blanks =>
    intro first tail isFirst
    obtain ⟨rfl, -⟩ := List.cons_eq_cons.1 isFirst
    exact .inl (allBlank c List.mem_cons_self)

/-- An operand that is found by its first character is one piece. -/
theorem FoundBy.scansBefore
    {c : Char}
    {kind : TokenKind}
    {characters : List Char}
    (found : FoundBy c kind characters)
    (noBlank : Text.isBlank c = false) :
    ScansBefore IsBreak characters [(kind, String.ofList characters)] :=
  fun position _ _ isBreak scanned =>
    ⟨[⟨kind, String.ofList characters, position⟩],
      found.scanFrom_eq noBlank (fun _ => isBreak) position scanned, rfl⟩

theorem foundBy_identifier
    {c : Char}
    {cs : List Char}
    (starts : startsIdentifier c = true)
    (continues : ∀ d ∈ cs, continuesIdentifier d = true) :
    FoundBy c .identifier (c :: cs) := by
  obtain ⟨-, noDigit, noPoint⟩ := startsIdentifier_cases starts
  have found : word? c (cs ++ []) = some ⟨.identifier, c :: cs, []⟩ :=
    word?_identifier starts continues (by simp)
  rw [List.append_nil] at found
  exact foundBy_of_word? (numeral?_eq_none noDigit noPoint cs) found

/-- A numeral of ASCII digits without a superfluous zero that is not too long,
or an identifier. -/
inductive IsPlainOperand : List Char -> Prop where
  | numeral
      {ds : List Char}
      (present : ds ≠ [])
      (allDigits : ∀ c ∈ ds, c.isDigit = true)
      (noZero : ds.head? = some '0' -> ds = ['0'])
      (short : ds.length ≤ Number.digitLimit) :
      IsPlainOperand ds
  | identifier
      {name : String}
      (isIdentifier : IsIdentifier name) :
      IsPlainOperand name.toList

/-- Operands between operators of arithmetic, without parentheses and signs,
with any white space around the operands. -/
inductive IsFlat : List Char -> Prop where
  | operand
      {blanks word blanks' : List Char}
      (allBlank : ∀ c ∈ blanks, Text.isBlank c = true)
      (isOperand : IsPlainOperand word)
      (allBlank' : ∀ c ∈ blanks', Text.isBlank c = true) :
      IsFlat (blanks ++ (word ++ blanks'))
  | operator
      {blanks word blanks' rest : List Char}
      {operation : Operation}
      (allBlank : ∀ c ∈ blanks, Text.isBlank c = true)
      (isOperand : IsPlainOperand word)
      (allBlank' : ∀ c ∈ blanks', Text.isBlank c = true)
      (member : operation ∈ Operation.arithmetic)
      (isFlat : IsFlat rest) :
      IsFlat (blanks ++ (word ++ blanks') ++ (operation.symbol.toList ++ rest))

end Token

/-! ## The bracketing of a flat text -/

namespace Bracketing

/-- Some characters are, but for white space, the text of a bracketing without
parentheses and signs, and are cut into its pieces. -/
structure IsSpelledBy (cs : List Char) (b : Bracketing) : Prop where
  count : b.count = 0
  operations : b.tree.Over Operation.arithmetic
  scannable : b.tree.IsScannable Number.IsReadable
  nonnegative : b.surface.isNegative = false
  encloses : b.EnclosesSigns
  text : b.text.toList = cs.filter fun c => !Text.isBlank c
  scans : Token.ScansBefore Token.IsBreak cs b.pieces

theorem filter_of_blanks
    {blanks : List Char}
    (allBlank : ∀ c ∈ blanks, Text.isBlank c = true) :
    (blanks.filter fun c => !Text.isBlank c) = [] :=
  List.filter_eq_nil_iff.2 (by simpa using allBlank)

theorem filter_of_noBlanks
    {cs : List Char}
    (noBlanks : ∀ c ∈ cs, Text.isBlank c = false) :
    (cs.filter fun c => !Text.isBlank c) = cs :=
  List.filter_eq_self.2 (by simpa using noBlanks)

namespace IsSpelledBy

variable {cs : List Char} {b : Bracketing}

/-- White space in front changes nothing. -/
theorem blanks_append
    (spelled : IsSpelledBy cs b)
    {blanks : List Char}
    (allBlank : ∀ c ∈ blanks, Text.isBlank c = true) :
    IsSpelledBy (blanks ++ cs) b where
  __ := spelled
  text := by
    rw [List.filter_append, filter_of_blanks allBlank, spelled.text]
    rfl
  scans :=
    (Token.scansBefore_blanks allBlank).append spelled.scans fun _ _ => trivial

/-- White space behind changes nothing. -/
theorem append_blanks
    (spelled : IsSpelledBy cs b)
    {blanks : List Char}
    (allBlank : ∀ c ∈ blanks, Text.isBlank c = true) :
    IsSpelledBy (cs ++ blanks) b where
  __ := spelled
  text := by
    rw [List.filter_append, filter_of_blanks allBlank, spelled.text,
      List.append_nil]
  scans := by
    have blanksScan : Token.ScansBefore Token.IsBreak blanks [] :=
      (Token.scansBefore_blanks allBlank).mono fun _ _ => trivial
    have scans := spelled.scans.append blanksScan fun _ isBreak =>
      isBreak.blanks_append allBlank
    rwa [List.append_nil] at scans

/-- Two flat texts around an operator. -/
theorem node
    {cs' : List Char}
    {b' : Bracketing}
    {operation : Operation}
    (spelled : IsSpelledBy cs b)
    (member : operation ∈ Operation.arithmetic)
    (spelled' : IsSpelledBy cs' b') :
    IsSpelledBy (cs ++ (operation.symbol.toList ++ cs'))
      (.node operation b b') := by
  obtain ⟨c, symbol, operator⟩ :=
    Registry.hasPlainSymbol_standard operation member
  have noBlank := (Token.isOperator_cases operator).1
  have scansSymbol := Token.scansBefore_operator operator
  rw [← symbol, String.ofList_toList] at scansSymbol
  have behind := scansSymbol.append spelled'.scans fun _ _ => trivial
  refine ⟨?_, ⟨member, spelled.operations, spelled'.operations⟩,
    ⟨spelled.scannable, spelled'.scannable⟩, rfl,
    ⟨spelled.nonnegative, spelled'.nonnegative, spelled.encloses,
      spelled'.encloses⟩, ?_, ?_⟩
  · rw [Bracketing.count, spelled.count, spelled'.count]
  · rw [Bracketing.text, String.toList_append, String.toList_append,
      spelled.text, spelled'.text,
      List.filter_append, List.filter_append, symbol]
    simp [noBlank]
  · refine spelled.scans.append behind fun rest _ => ?_
    intro first tail isFirst
    rw [symbol] at isFirst
    exact .inr (.inl ((List.cons_eq_cons.1 isFirst).1 ▸ operator))

end IsSpelledBy

theorem isSpelledBy_digits
    {n : Nat}
    (short : (Number.int n).IsReadable) :
    IsSpelledBy (Decimal.digits n) (.number (.int n)) := by
  obtain ⟨c, found, noBlank⟩ := Token.foundBy_digits n
  have nonnegative : ¬(n : Int) < 0 := by omega
  refine ⟨rfl, trivial, short, decide_eq_false nonnegative, trivial, ?_, ?_⟩
  · rw [filter_of_noBlanks fun c member =>
      Text.isBlank_of_isDigit (Decimal.isDigit_of_mem_digits n c member)]
    simp [text, Number.text, Decimal.signedNumeral, Decimal.numeral,
      nonnegative]
  · have scans := found.scansBefore noBlank
    simpa [pieces, Number.pieces, nonnegative, Decimal.numeral] using scans

theorem isSpelledBy_identifier
    {name : String}
    (isIdentifier : Token.IsIdentifier name) :
    IsSpelledBy name.toList (.name name) := by
  obtain ⟨c, cs, isName, starts, continues⟩ := id isIdentifier
  have noBlank := (Token.startsIdentifier_cases starts).1
  refine ⟨rfl, trivial, isIdentifier, rfl, trivial, ?_, ?_⟩
  · refine (filter_of_noBlanks ?_).symm
    rw [text, isName]
    refine List.forall_mem_cons.2 ⟨noBlank, fun d member => ?_⟩
    by_contra blank
    have stops := (Token.isBlank_cases (by simpa using blank)).2.1
    rw [continues d member] at stops
    cases stops
  · have scans :=
      (Token.foundBy_identifier starts continues).scansBefore noBlank
    rwa [← isName, String.ofList_toList] at scans

theorem exists_isSpelledBy_of_operand
    {word : List Char}
    (isOperand : Token.IsPlainOperand word) :
    ∃ b, IsSpelledBy word b := by
  cases isOperand with
  | numeral present allDigits noZero short =>
    obtain ⟨n, rfl, small⟩ := Decimal.exists_digits present allDigits noZero
    refine ⟨_, isSpelledBy_digits (Number.isReadable_of_lt ?_)⟩
    exact Nat.lt_of_lt_of_le small (Nat.pow_le_pow_right (by decide) short)
  | identifier isIdentifier => exact ⟨_, isSpelledBy_identifier isIdentifier⟩

/-- A flat text spells a bracketing. -/
theorem exists_isSpelledBy
    {cs : List Char}
    (flat : Token.IsFlat cs) :
    ∃ b, IsSpelledBy cs b := by
  induction flat with
  | operand allBlank isOperand allBlank' =>
    obtain ⟨b, spelled⟩ := exists_isSpelledBy_of_operand isOperand
    exact ⟨b, (spelled.append_blanks allBlank').blanks_append allBlank⟩
  | operator allBlank isOperand allBlank' member _ inductive_step =>
    obtain ⟨b, spelled⟩ := exists_isSpelledBy_of_operand isOperand
    obtain ⟨b', spelled'⟩ := inductive_step
    exact ⟨_, ((spelled.append_blanks allBlank').blanks_append allBlank).node
      member spelled'⟩

end Bracketing

/-- Precedence climbing needs no parentheses to print back.  A text of numerals
and identifiers between operators, without parentheses and signs and with any
white space, is parsed, and the parsed tree is written as the text without its
white space. -/
theorem writeText_of_flat
    {text : String}
    (flat : Token.IsFlat text.toList) :
    ∃ tree, parse .standard text = .ok tree ∧
      tree.writeText =
        .ok (String.ofList (text.toList.filter fun c => !Text.isBlank c)) := by
  obtain ⟨b, spelled⟩ := Bracketing.exists_isSpelledBy flat
  have parsed := Bracketing.parse_regroup Registry.built_standard.hasUniqueKeys
    Registry.agreesOnSides_standard (Expr.readsNumbers_readable .standard)
      spelled.scans
    Token.isBreak_nil spelled.operations spelled.scannable spelled.encloses
  rw [Expr.mapNumbers_const, Bracketing.stripped_tree] at parsed
  have rearranges := Bracketing.rearranges_regroup b
  have grouped :=
    (Bracketing.regroup_isGrouped Registry.agreesOnSides_standard
    spelled.operations spelled.encloses).1
  have scannable := (rearranges.scannable _).1 spelled.scannable
  have isText : b.regroup.tree.text =
      String.ofList (text.toList.filter fun c => !Text.isBlank c) := by
    rw [← Expr.text_bracketing scannable,
      grouped.bracketing_tree (rearranges.count.symm.trans spelled.count),
        ← rearranges.text,
      ← spelled.text, String.ofList_toList]
  refine ⟨_, parsed, ?_⟩
  rw [← isText]
  exact Expr.writeText_of_isScannable
    (scannable.mono fun _ => Number.IsReadable.isWritable)

/-- The tree of ` 7 -x^ y ` is printed without white space. -/
theorem writeText_of_flat_power :
    ∃ tree, parse .standard " 7 -x^ y " = .ok tree ∧
      tree.writeText = .ok "7-x^y" := by
  have letter (c : Char) (starts : Token.startsIdentifier c = true) :
      Token.IsPlainOperand [c] :=
    String.toList_ofList (l := [c]) ▸
      .identifier ⟨c, [], String.toList_ofList, starts, by simp⟩
  have seven : Token.IsPlainOperand ['7'] :=
    .numeral (by simp) (List.forall_mem_singleton.2 rfl) (by simp)
      (by simp [Number.digitLimit])
  have blank : ∀ c ∈ [' '], Text.isBlank c = true :=
    List.forall_mem_singleton.2 rfl
  have nothing : ∀ c ∈ ([] : List Char), Text.isBlank c = true := by simp
  have flat : Token.IsFlat " 7 -x^ y ".toList :=
    @Token.IsFlat.operator [' '] ['7'] [' '] _ .difference blank seven blank
      (by simp [Operation.arithmetic])
      (@Token.IsFlat.operator [] ['x'] [] _ .power nothing
        (letter 'x' rfl) nothing (by simp [Operation.arithmetic])
        (@Token.IsFlat.operand [' '] ['y'] [' '] blank (letter 'y' rfl) blank))
  exact writeText_of_flat flat

end Symbolic
