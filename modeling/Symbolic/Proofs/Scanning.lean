import Symbolic.Proofs.NumeralText
import Symbolic.Proofs.Outcome

/-!
# Scanning printed text

A piece of text is a kind of token with its characters.  `ScansBefore` says that
some characters are cut into given pieces whenever they stand in front of a text
that cannot continue the last piece.  Scans of neighbouring texts can be put
together; the pieces themselves are numerals, identifiers, parentheses and
operators.
-/

namespace Symbolic
namespace Text

/-- The letters of ASCII by their codes. -/
theorem isAlpha_iff
    (c : Char) :
    c.isAlpha = true ↔
      (65 ≤ c.toNat ∧ c.toNat ≤ 90) ∨ (97 ≤ c.toNat ∧ c.toNat ≤ 122) := by
  change (decide ('A'.val ≤ c.val ∧ c.val ≤ 'Z'.val) ||
    (decide ('a'.val ≤ c.val) && decide (c.val ≤ 'z'.val))) = true ↔ _
  simp only [Bool.or_eq_true, Bool.and_eq_true, decide_eq_true_eq,
    UInt32.le_iff_toNat_le]
  exact Iff.rfl

/-- The letters and digits of ASCII by their codes. -/
theorem isAlphanum_iff
    (c : Char) :
    c.isAlphanum = true ↔
      ((65 ≤ c.toNat ∧ c.toNat ≤ 90) ∨ (97 ≤ c.toNat ∧ c.toNat ≤ 122)) ∨
      (48 ≤ c.toNat ∧ c.toNat ≤ 57) := by
  change (c.isAlpha || c.isDigit) = true ↔ _
  rw [Bool.or_eq_true, isAlpha_iff, Char.isDigit_iff_toNat]
  exact Iff.rfl

/-- The letters and digits of ASCII may be part of a word. -/
theorem isWordCharacter_of_isAlphanum
    {c : Char}
    (alphanumeric : c.isAlphanum = true) :
    isWordCharacter c = true := by
  have small : c.toNat < 128 := by
    have range := (isAlphanum_iff c).1 alphanumeric
    omega
  simp [isWordCharacter, isAlphanumeric, small, alphanumeric]

/-- A decimal digit lies in the ten digits of a script. -/
theorem exists_zero_of_isDigit
    {c : Char}
    (digit : isDigit c = true) :
    ∃ start ∈ digitZeros, start ≤ c.toNat ∧ c.toNat ≤ start + 9 := by
  obtain ⟨value, found⟩ := Option.isSome_iff_exists.1 digit
  unfold digitValue? at found
  obtain ⟨start, isStart, -⟩ := Option.map_eq_some_iff.1 found
  have bounds := List.find?_some isStart
  simp only [Bool.and_eq_true, decide_eq_true_eq] at bounds
  exact ⟨start, List.mem_of_find?_eq_some isStart, bounds⟩

/-- Every decimal digit may be part of a word.  Beyond ASCII, the ten digits of
a script lie in one interval of the table of words. -/
theorem isWordCharacter_of_isDigit
    {c : Char}
    (digit : isDigit c = true) :
    isWordCharacter c = true := by
  have covered : ∀ start ∈ digitZeros, start = 0x30 ∨ 128 ≤ start ∧
      wideAlphanumerics.any (fun interval =>
        decide (interval.first ≤ start) && decide (start + 9 ≤ interval.last)) =
          true := by
    decide +kernel
  obtain ⟨start, member, bounds⟩ := exists_zero_of_isDigit digit
  rcases covered start member with rfl | ⟨wide, inTable⟩
  · apply isWordCharacter_of_isAlphanum
    rw [isAlphanum_iff]
    omega
  · have large : ¬c.toNat < 128 := by omega
    obtain ⟨interval, inIntervals', inside⟩ := List.any_eq_true.1 inTable
    simp only [Bool.and_eq_true, decide_eq_true_eq] at inside
    have holds : inIntervals wideAlphanumerics c = true := by
      apply List.any_eq_true.2
      refine ⟨interval, inIntervals', ?_⟩
      simp only [Interval.holds, Bool.and_eq_true, decide_eq_true_eq]
      omega
    simp [isWordCharacter, isAlphanumeric, large, holds]

theorem exists_interval_of_isBlank
    {c : Char}
    (blank : isBlank c = true) :
    ∃ interval ∈ blanks, interval.first ≤ c.toNat ∧
      c.toNat ≤ interval.last := by
  obtain ⟨interval, member, holds⟩ := List.any_eq_true.1 blank
  simp only [Interval.holds, Bool.and_eq_true, decide_eq_true_eq] at holds
  exact ⟨interval, member, holds⟩

/-- No decimal digit is blank. -/
theorem isBlank_of_isDigit
    {c : Char}
    (digit : isDigit c = true) :
    isBlank c = false := by
  have disjoint : ∀ start ∈ digitZeros, ∀ interval ∈ blanks,
      start + 9 < interval.first ∨ interval.last < start := by
    decide +kernel
  obtain ⟨start, member, above, below⟩ := exists_zero_of_isDigit digit
  by_contra blank
  obtain ⟨interval, inBlanks, first, last⟩ :=
    exists_interval_of_isBlank (by simpa using blank)
  have := disjoint start member interval inBlanks
  omega

end Text

namespace Token

/-- The kind and the text of a token, without its position. -/
def piece (token : Token) : TokenKind × String :=
  (token.kind, token.text)

/-- The characters in front of which a numeral or an identifier ends. -/
def IsEnd (rest : List Char) : Prop :=
  ∀ c tail, rest = c :: tail -> isOperator c = true ∨ c = ')'

theorem isEnd_nil : IsEnd [] := by
  intro c tail isFirst
  cases isFirst

/-- An operator is no part of anything longer. -/
theorem isOperator_cases
    {c : Char}
    (operator : isOperator c = true) :
    Text.isBlank c = false ∧ Text.isDigit c = false ∧
      continuesIdentifier c = false ∧
      c ≠ '(' ∧ c ≠ ')' ∧ c ≠ '.' ∧ c ≠ 'e' ∧ c ≠ 'E' := by
  simp only [isOperator, Bool.not_eq_true', Bool.or_eq_false_iff,
    beq_eq_false_iff_ne] at operator
  obtain ⟨⟨⟨⟨noWord, noBlank⟩, noOpening⟩, noClosing⟩, noPoint⟩ := operator
  have noDigit : Text.isDigit c = false := by
    by_contra digit
    rw [Text.isWordCharacter_of_isDigit (by simpa using digit)] at noWord
    exact absurd noWord (by decide)
  have noLetter : c.isAlphanum = false := by
    by_contra letter
    rw [Text.isWordCharacter_of_isAlphanum (by simpa using letter)] at noWord
    exact absurd noWord (by decide)
  have noUnderscore : c ≠ '_' := by
    rintro rfl
    exact absurd noWord (by decide)
  refine ⟨noBlank, noDigit, ?_, noOpening, noClosing, noPoint, ?_, ?_⟩
  · simp [continuesIdentifier, noLetter, noUnderscore]
  · rintro rfl
    exact absurd noLetter (by decide)
  · rintro rfl
    exact absurd noLetter (by decide)

/-- A numeral ends where an operator or a closing parenthesis stands. -/
theorem IsEnd.numeral
    {rest : List Char}
    (isEnd : IsEnd rest) :
    Decimal.Numeral.IsEnd rest := by
  intro c tail isFirst
  rcases isEnd c tail isFirst with operator | rfl
  · obtain ⟨-, noDigit, -, -, -, noPoint, noLower, noUpper⟩ :=
      isOperator_cases operator
    exact ⟨noDigit, noPoint, noLower, noUpper⟩
  · decide

/-- Characters that are cut into pieces in front of every suitable text,
whatever is scanned there. -/
def ScansBefore
    (suitable : List Char -> Prop)
    (cs : List Char)
    (pieces : List (TokenKind × String)) : Prop :=
  ∀ position rest later, suitable rest ->
    scanFrom (position + cs.length) rest = .ok later ->
    ∃ tokens, scanFrom position (cs ++ rest) = .ok (tokens ++ later) ∧
      tokens.map piece = pieces

/-- Neighbouring texts are scanned one after the other. -/
theorem ScansBefore.append
    {suitable suitable' : List Char -> Prop}
    {cs cs' : List Char}
    {pieces pieces' : List (TokenKind × String)}
    (first : ScansBefore suitable cs pieces)
    (second : ScansBefore suitable' cs' pieces')
    (fits : ∀ rest, suitable' rest -> suitable (cs' ++ rest)) :
    ScansBefore suitable' (cs ++ cs') (pieces ++ pieces') := by
  intro position rest later isSuitable scanned
  rw [List.length_append, ← Nat.add_assoc] at scanned
  obtain ⟨tokens', scanned', isPieces'⟩ :=
    second _ rest later isSuitable scanned
  obtain ⟨tokens, scanned, isPieces⟩ :=
    first _ _ _ (fits rest isSuitable) scanned'
  refine ⟨tokens ++ tokens', ?_, ?_⟩
  · rw [List.append_assoc, List.append_assoc]
    exact scanned
  · rw [List.map_append, isPieces, isPieces']

theorem ScansBefore.mono
    {suitable suitable' : List Char -> Prop}
    {cs : List Char}
    {pieces : List (TokenKind × String)}
    (scans : ScansBefore suitable cs pieces)
    (weaker : ∀ rest, suitable' rest -> suitable rest) :
    ScansBefore suitable' cs pieces :=
  fun position rest later isSuitable =>
    scans position rest later (weaker rest isSuitable)

/-- White space has no tokens. -/
theorem scansBefore_blanks
    {blanks : List Char}
    (allBlank : ∀ c ∈ blanks, Text.isBlank c = true) :
    ScansBefore (fun _ => True) blanks [] := by
  intro position rest later _ scanned
  refine ⟨[], ?_, rfl⟩
  induction blanks generalizing position with
  | nil => exact scanned
  | cons c blanks inductive_step =>
    obtain ⟨blank, allBlank⟩ := List.forall_mem_cons.1 allBlank
    rw [List.cons_append, scanFrom, if_pos blank]
    apply inductive_step allBlank
    rwa [List.length_cons, Nat.add_comm blanks.length, ← Nat.add_assoc]
      at scanned

/-- A whole text is cut into its pieces and the end of the input. -/
theorem ScansBefore.scan
    {suitable : List Char -> Prop}
    {text : String}
    {pieces : List (TokenKind × String)}
    (scans : ScansBefore suitable text.toList pieces)
    (atEnd : suitable []) :
    ∃ tokens position, Token.scan text =
      .ok (tokens ++ [⟨.endOfInput, "", position⟩]) ∧
      tokens.map piece = pieces := by
  have ends : scanFrom (0 + text.toList.length) [] =
      .ok [⟨.endOfInput, "", 0 + text.toList.length⟩] := by
    rw [scanFrom]
  obtain ⟨tokens, scanned, spelled⟩ := scans 0 [] _ atEnd ends
  rw [List.append_nil] at scanned
  exact ⟨tokens, _, scanned, spelled⟩

/-- A whole text is cut into pieces in one way only. -/
theorem ScansBefore.unique
    {suitable suitable' : List Char -> Prop}
    {text : String}
    {pieces pieces' : List (TokenKind × String)}
    (scans : ScansBefore suitable text.toList pieces)
    (atEnd : suitable [])
    (scans' : ScansBefore suitable' text.toList pieces')
    (atEnd' : suitable' []) :
    pieces = pieces' := by
  obtain ⟨tokens, position, scanned, rfl⟩ := scans.scan atEnd
  obtain ⟨tokens', position', scanned', rfl⟩ := scans'.scan atEnd'
  rw [scanned, Except.ok.injEq] at scanned'
  rw [(List.append_inj' scanned' rfl).1]

/-- The token at the front, where no blank stands, and the tokens behind it. -/
theorem scanFrom_of_lexeme?
    (position : Nat)
    {c : Char}
    {cs : List Char}
    {lexeme : Lexeme}
    (noBlank : Text.isBlank c = false)
    (found : lexeme? c cs = some lexeme) :
    scanFrom position (c :: cs) =
      (scanFrom (position + lexeme.characters.length) lexeme.rest >>=
        fun later =>
        .ok (⟨lexeme.kind, String.ofList lexeme.characters, position⟩ ::
          later)) := by
  rw [scanFrom, noBlank]
  simp only [Bool.false_eq_true, if_false]
  split
  · next nothing =>
    rw [found] at nothing
    cases nothing
  · next lexeme' isLexeme =>
    rw [found] at isLexeme
    cases isLexeme
    rfl

/-- A lexeme at the front is one piece. -/
theorem scansBefore_of_lexeme
    {suitable : List Char -> Prop}
    {kind : TokenKind}
    {c : Char}
    {cs : List Char}
    (noBlank : Text.isBlank c = false)
    (found : ∀ rest, suitable rest ->
      lexeme? c (cs ++ rest) = some ⟨kind, c :: cs, rest⟩) :
    ScansBefore suitable (c :: cs) [(kind, String.ofList (c :: cs))] := by
  intro position rest later isSuitable scanned
  refine ⟨[⟨kind, String.ofList (c :: cs), position⟩], ?_, rfl⟩
  rw [List.cons_append,
    scanFrom_of_lexeme? position noBlank (found rest isSuitable), scanned]
  rfl

/-! ## The pieces -/

theorem numeral?_eq_none
    {c : Char}
    (noDigit : Text.isDigit c = false)
    (noPoint : c ≠ '.')
    (rest : List Char) :
    numeral? (c :: rest) = none := by
  have spanned : Decimal.spanDigits (c :: rest) = ([], c :: rest) := by
    simp [Decimal.spanDigits, noDigit]
  unfold numeral?
  rw [spanned]
  dsimp only
  split
  · next behind isPoint =>
    cases isPoint
    exact absurd rfl noPoint
  · rfl

theorem scansBefore_single
    {kind : TokenKind}
    {c : Char}
    (noBlank : Text.isBlank c = false)
    (noDigit : Text.isDigit c = false)
    (noPoint : c ≠ '.')
    (isWord : ∀ rest, word? c rest = some (single kind c rest)) :
    ScansBefore (fun _ => True) [c] [(kind, String.ofList [c])] := by
  apply scansBefore_of_lexeme noBlank
  intro rest _
  rw [lexeme?, List.nil_append, numeral?_eq_none noDigit noPoint,
    Option.none_or, isWord]
  rfl

theorem scansBefore_opening :
    ScansBefore (fun _ => True) ['('] [(.opening, "(")] :=
  scansBefore_single (by decide) (by decide) (by decide) fun _ => rfl

theorem scansBefore_closing :
    ScansBefore (fun _ => True) [')'] [(.closing, ")")] :=
  scansBefore_single (by decide) (by decide) (by decide) fun _ => rfl

theorem scansBefore_operator
    {c : Char}
    (operator : isOperator c = true) :
    ScansBefore (fun _ => True) [c] [(.operator, String.ofList [c])] := by
  obtain ⟨noBlank, noDigit, noIdentifier, noOpening, noClosing, noPoint,
      -, -⟩ :=
    isOperator_cases operator
  have noStart : startsIdentifier c = false := by
    simp only [continuesIdentifier, Char.isAlphanum, Bool.or_eq_false_iff]
      at noIdentifier
    simp [startsIdentifier, noIdentifier]
  apply scansBefore_single noBlank noDigit noPoint
  intro rest
  simp [word?, noStart, noOpening, noClosing, operator]

/-- A name that is an identifier. -/
def IsIdentifier (name : String) : Prop :=
  ∃ c cs, name.toList = c :: cs ∧ startsIdentifier c = true ∧
    ∀ d ∈ cs, continuesIdentifier d = true

/-- The first character of an identifier is neither blank nor a digit nor a
point. -/
theorem startsIdentifier_cases
    {c : Char}
    (starts : startsIdentifier c = true) :
    Text.isBlank c = false ∧ Text.isDigit c = false ∧ c ≠ '.' := by
  have range : 65 ≤ c.toNat ∧ c.toNat ≤ 122 := by
    simp only [startsIdentifier, Bool.or_eq_true, Text.isAlpha_iff, beq_iff_eq]
      at starts
    rcases starts with letter | rfl
    · omega
    · decide
  have noBlanks : ∀ interval ∈ Text.blanks,
      interval.last < 65 ∨ 122 < interval.first := by
    decide +kernel
  have noDigits : ∀ start ∈ Text.digitZeros, start + 9 < 65 ∨ 122 < start := by
    decide +kernel
  refine ⟨?_, ?_, ?_⟩
  · by_contra blank
    obtain ⟨interval, member, first, last⟩ :=
      Text.exists_interval_of_isBlank (by simpa using blank)
    have := noBlanks interval member
    omega
  · by_contra digit
    obtain ⟨start, member, above, below⟩ :=
      Text.exists_zero_of_isDigit (by simpa using digit)
    have := noDigits start member
    omega
  · rintro rfl
    exact absurd range.1 (by decide)

/-- An identifier ends in front of the first character that does not continue
it. -/
theorem word?_identifier
    {c : Char}
    {cs rest : List Char}
    (starts : startsIdentifier c = true)
    (continues : ∀ d ∈ cs, continuesIdentifier d = true)
    (ends : ∀ d tail, rest = d :: tail -> continuesIdentifier d = false) :
    word? c (cs ++ rest) = some ⟨.identifier, c :: cs, rest⟩ := by
  have stops : rest.takeWhile continuesIdentifier = [] ∧
      rest.dropWhile continuesIdentifier = rest := by
    cases rest with
    | nil => exact ⟨rfl, rfl⟩
    | cons d tail => simp [ends d tail rfl]
  rw [word?, if_pos starts, List.takeWhile_append_of_pos continues,
    List.dropWhile_append_of_pos continues, stops.1, stops.2, List.append_nil]

theorem scansBefore_identifier
    {name : String}
    (identifier : IsIdentifier name) :
    ScansBefore IsEnd name.toList [(.identifier, name)] := by
  obtain ⟨c, cs, isName, starts, continues⟩ := identifier
  obtain ⟨noBlank, noDigit, noPoint⟩ := startsIdentifier_cases starts
  have named : name = String.ofList (c :: cs) := by
    rw [← isName, String.ofList_toList]
  rw [named, String.toList_ofList]
  apply scansBefore_of_lexeme noBlank
  intro rest isEnd
  rw [lexeme?, numeral?_eq_none noDigit noPoint, Option.none_or]
  apply word?_identifier starts continues
  intro d tail isFirst
  rcases isEnd d tail isFirst with operator | rfl
  · exact (isOperator_cases operator).2.2.1
  · decide

/-- The scanner takes a numeral in front of an end as one piece. -/
theorem scansBefore_numeral
    {numeral : Decimal.Numeral}
    (wellFormed : numeral.IsWellFormed) :
    ScansBefore IsEnd numeral.characters
      [(if numeral.isReal then .real else .integer,
        String.ofList numeral.characters)] := by
  obtain ⟨c, cs, isCharacters, digit⟩ : ∃ c cs, numeral.characters = c :: cs ∧
      Text.isDigit c = true := by
    cases isWhole : numeral.whole with
    | nil => exact absurd isWhole wellFormed.notEmpty
    | cons c cs =>
      refine ⟨c, cs ++ (numeral.pointed ++ numeral.marked), ?_, ?_⟩
      · rw [Decimal.Numeral.characters, isWhole, List.cons_append]
      · exact wellFormed.whole c (by rw [isWhole]; exact List.mem_cons_self)
  rw [isCharacters]
  apply scansBefore_of_lexeme (Text.isBlank_of_isDigit digit)
  intro rest isEnd
  have found := wellFormed.numeral?_characters isEnd.numeral
  rw [isCharacters] at found
  rw [lexeme?, ← List.cons_append, found, Option.some_or]

end Token
end Symbolic
