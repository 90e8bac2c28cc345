import Mathlib.Data.List.TakeWhile
import Symbolic.Proofs.Scanning

/-!
# Where tokens end

A lexeme does not depend on the text far behind it: if the rest of a text is cut
off somewhere and goes on with a blank or not at all, the lexeme at the front
stays the same. The tokens of a text are lexemes that divide it, up to blanks,
and a last one for its end. So every beginning of a list of tokens is also the
beginning of the tokens of a text that may be continued at will behind a blank.
-/

namespace Symbolic
namespace Token

/-- A blank is no part of any token. -/
theorem isBlank_cases
    {c : Char}
    (blank : Text.isBlank c = true) :
    Text.isDigit c = false ∧ continuesIdentifier c = false ∧
      c ≠ '.' ∧ c ≠ 'e' ∧ c ≠ 'E' ∧ c ≠ '+' ∧ c ≠ '-' := by
  have outside : ∀ interval ∈ Text.blanks,
      interval.last < 33 ∨ 127 < interval.first := by
    decide +kernel
  obtain ⟨interval, member, first, last⟩ :=
    Text.exists_interval_of_isBlank blank
  have range : c.toNat < 33 ∨ 127 < c.toNat := by
    have := outside interval member
    omega
  have noDigit : Text.isDigit c = false := by
    by_contra digit
    rw [Text.isBlank_of_isDigit (by simpa using digit)] at blank
    cases blank
  have noLetter : continuesIdentifier c = false := by
    by_contra continues
    have letter : 33 ≤ c.toNat ∧ c.toNat ≤ 127 := by
      simp only [continuesIdentifier, Bool.or_eq_true, Text.isAlphanum_iff,
        beq_iff_eq, Bool.not_eq_false] at continues
      rcases continues with alphanumeric | rfl
      · omega
      · decide
    omega
  refine ⟨noDigit, noLetter, ?_, ?_, ?_, ?_, ?_⟩ <;>
    · rintro rfl
      exact absurd blank (by decide)

/-- A text that is empty or starts with a blank. -/
def StartsBlank (rest : List Char) : Prop :=
  ∀ c tail, rest = c :: tail -> Text.isBlank c = true

/-- What holds of the first character of a text and of blanks still holds if the
text is cut off in front of a blank. -/
theorem StartsBlank.first
    {rest : List Char}
    (blank : StartsBlank rest)
    (holds : Char -> Prop)
    (ofBlank : ∀ c, Text.isBlank c = true -> holds c)
    {kept cut : List Char}
    (ofFirst : ∀ c tail, kept ++ cut = c :: tail -> holds c)
    (c : Char)
    (tail : List Char)
    (isFirst : kept ++ rest = c :: tail) :
    holds c := by
  cases kept with
  | nil => exact ofBlank c (blank c tail isFirst)
  | cons d kept =>
    obtain ⟨rfl, -⟩ := List.cons_eq_cons.1 isFirst
    exact ofFirst d (kept ++ cut) rfl

theorem isDigit_of_spanDigits
    {cs digits rest : List Char}
    (spanned : Decimal.spanDigits cs = (digits, rest))
    (c : Char)
    (member : c ∈ digits) :
    Text.isDigit c = true := by
  obtain ⟨rfl, -⟩ := Prod.mk.inj spanned
  exact List.mem_takeWhile_imp member

theorem noDigit_of_spanDigits
    {cs digits rest : List Char}
    (spanned : Decimal.spanDigits cs = (digits, rest))
    (c : Char)
    (tail : List Char)
    (isFirst : rest = c :: tail) :
    Text.isDigit c = false := by
  obtain ⟨-, isRest⟩ := Prod.mk.inj spanned
  have stops := List.head?_dropWhile_not Text.isDigit cs
  rw [isRest, isFirst] at stops
  simpa using stops

theorem spanSign_of_ne
    {c : Char}
    (noPlus : c ≠ '+')
    (noMinus : c ≠ '-')
    (tail : List Char) :
    spanSign (c :: tail) = ([], c :: tail) := by
  unfold spanSign
  split
  · next isFirst => exact absurd (List.cons_eq_cons.1 isFirst).1 noPlus
  · next isFirst => exact absurd (List.cons_eq_cons.1 isFirst).1 noMinus
  · rfl

/-- A sign in front of a digit stays the sign in front of that digit. -/
theorem spanSign_sign
    (cs : List Char)
    {c : Char}
    (digit : Text.isDigit c = true)
    (tail : List Char) :
    spanSign ((spanSign cs).1 ++ c :: tail) = ((spanSign cs).1, c :: tail) := by
  have noPlus : c ≠ '+' := by
    rintro rfl
    exact absurd digit (by decide)
  have noMinus : c ≠ '-' := by
    rintro rfl
    exact absurd digit (by decide)
  have stays := spanSign_of_ne noPlus noMinus tail
  rcases cs with _ | ⟨d, rest⟩
  · exact stays
  · by_cases isPlus : d = '+'
    · subst isPlus
      rfl
    · by_cases isMinus : d = '-'
      · subst isMinus
        rfl
      · rw [spanSign_of_ne isPlus isMinus]
        exact stays

/-- The two ways in which a numeral stands at the front of a text. -/
inductive StartsWithNumeral (cs : List Char) : Lexeme -> Prop where
  | pointed
      {whole behind part after exponent rest : List Char}
      (isWhole : Decimal.spanDigits cs = (whole, '.' :: behind))
      (isPart : Decimal.spanDigits behind = (part, after))
      (isExponent : spanExponent after = (exponent, rest))
      (hasDigits : (whole.isEmpty && part.isEmpty) = false) :
      StartsWithNumeral cs ⟨.real, whole ++ ('.' :: part ++ exponent), rest⟩
  | unpointed
      {whole after exponent rest : List Char}
      (isWhole : Decimal.spanDigits cs = (whole, after))
      (noPoint : ∀ c tail, after = c :: tail -> c ≠ '.')
      (isExponent : spanExponent after = (exponent, rest))
      (hasDigits : whole.isEmpty = false) :
      StartsWithNumeral cs
        ⟨if exponent.isEmpty then .integer else .real, whole ++ exponent, rest⟩

theorem numeral?_eq_some_iff
    {cs : List Char}
    {lexeme : Lexeme} :
    numeral? cs = some lexeme ↔ StartsWithNumeral cs lexeme := by
  constructor
  · intro found
    rcases isWhole : Decimal.spanDigits cs with ⟨whole, after⟩
    simp only [numeral?, isWhole] at found
    split at found
    · next behind _ =>
      split at found
      · cases found
      · next hasDigits =>
        cases found
        exact .pointed isWhole rfl rfl (by simpa using hasDigits)
    · next noPoint =>
      split at found
      · cases found
      · next hasDigits =>
        have first : ∀ c tail, after = c :: tail -> c ≠ '.' := by
          rintro c tail isFirst rfl
          exact noPoint tail isFirst
        rcases isExponent : spanExponent after with ⟨exponent, rest⟩
        have isNumeral := StartsWithNumeral.unpointed isWhole first isExponent
          (by simpa using hasDigits)
        rw [isExponent] at found
        cases exponent with
        | nil =>
          have stays := spanExponent_append after
          rw [isExponent] at stays
          cases found
          subst stays
          simpa using isNumeral
        | cons mark exponent =>
          cases found
          exact isNumeral
  · intro isNumeral
    cases isNumeral with
    | pointed isWhole isPart isExponent hasDigits =>
      simp [numeral?, isWhole, isPart, isExponent, hasDigits]
    | @unpointed whole after exponent rest isWhole noPoint isExponent hasDigits =>
      simp only [numeral?, isWhole]
      split
      · exact absurd rfl (noPoint _ _ rfl)
      · rw [isExponent]
        cases exponent with
        | nil =>
          have stays := spanExponent_append after
          rw [isExponent] at stays
          subst stays
          simp [hasDigits]
        | cons mark exponent => simp [hasDigits]

theorem noDigit_of_numeral?_eq_none
    {c : Char}
    {cs : List Char}
    (nothing : numeral? (c :: cs) = none) :
    Text.isDigit c = false := by
  by_contra digit
  have notEmpty : (Decimal.spanDigits (c :: cs)).1.isEmpty = false := by
    simp [Decimal.spanDigits, List.takeWhile_cons, digit]
  simp only [numeral?, notEmpty] at nothing
  split at nothing
  · simp at nothing
  · simp only [Bool.false_eq_true, if_false] at nothing
    split at nothing <;> cases nothing

theorem word?_point (cs : List Char) : word? '.' cs = none := rfl

/-- Lexemes that are neither numerals nor identifiers are single characters. -/
theorem exists_single
    {c : Char}
    (noStart : startsIdentifier c = false) :
    ∃ kind? : Option TokenKind, ∀ rest,
      word? c rest = kind?.map fun kind => single kind c rest := by
  unfold word?
  simp only [noStart, Bool.false_eq_true, if_false]
  by_cases opens : (c == '(') = true
  · exact ⟨some .opening, fun rest => by rw [if_pos opens]; rfl⟩
  · by_cases closes : (c == ')') = true
    · exact ⟨some .closing, fun rest =>
        by rw [if_neg opens, if_pos closes]; rfl⟩
    · by_cases operator : isOperator c = true
      · exact ⟨some .operator, fun rest =>
          by rw [if_neg opens, if_neg closes, if_pos operator]; rfl⟩
      · exact ⟨none, fun rest =>
          by rw [if_neg opens, if_neg closes, if_neg operator]; rfl⟩

section

variable {kept cut rest : List Char} (blank : StartsBlank rest)

include blank

/-! ## Numerals -/

theorem spanDigits_cut
    {cs digits : List Char}
    (spanned : Decimal.spanDigits cs = (digits, kept ++ cut)) :
    Decimal.spanDigits (digits ++ (kept ++ rest)) = (digits, kept ++ rest) := by
  apply Decimal.spanDigits_of_digits (isDigit_of_spanDigits spanned)
  apply blank.first fun c => Text.isDigit c = false
  · intro c isBlank
    exact (isBlank_cases isBlank).1
  · exact noDigit_of_spanDigits spanned

/-- No digits are found where none were found before. -/
theorem spanDigits_cut_of_nil
    (nothing : (Decimal.spanDigits (kept ++ cut)).1 = []) :
    (Decimal.spanDigits (kept ++ rest)).1 = [] := by
  have whole := Decimal.spanDigits_append (kept ++ cut)
  rw [nothing, List.nil_append] at whole
  have spanned := spanDigits_cut blank (Prod.ext nothing whole)
  rw [List.nil_append] at spanned
  rw [spanned]

/-- Behind a sign, or where there is none, the text is cut off at the same
place. -/
theorem spanSign_cut :
    ∃ kept' cut', (spanSign (kept ++ cut)).2 = kept' ++ cut' ∧
      (spanSign (kept ++ rest)).2 = kept' ++ rest := by
  cases kept with
  | nil =>
    refine ⟨[], (spanSign cut).2, rfl, ?_⟩
    cases rest with
    | nil => rfl
    | cons c tail =>
      obtain ⟨-, -, -, -, -, noPlus, noMinus⟩ :=
        isBlank_cases (blank c tail rfl)
      simp [spanSign_of_ne noPlus noMinus]
  | cons c kept =>
    by_cases isPlus : c = '+'
    · subst isPlus
      exact ⟨kept, cut, rfl, rfl⟩
    · by_cases isMinus : c = '-'
      · subst isMinus
        exact ⟨kept, cut, rfl, rfl⟩
      · refine ⟨c :: kept, cut, ?_, ?_⟩
        · rw [List.cons_append, spanSign_of_ne isPlus isMinus]
        · rw [List.cons_append, spanSign_of_ne isPlus isMinus]

/-- No exponent starts where none started before. -/
theorem spanExponent_cut_of_nil
    (nothing : (spanExponent (kept ++ cut)).1 = []) :
    (spanExponent (kept ++ rest)).1 = [] := by
  cases kept with
  | nil =>
    cases rest with
    | nil => rfl
    | cons c tail =>
      obtain ⟨-, -, -, noLower, noUpper, -, -⟩ :=
        isBlank_cases (blank c tail rfl)
      simp [spanExponent, noLower, noUpper]
  | cons mark behind =>
    by_cases isMark : (mark == 'e' || mark == 'E') = true
    · have noDigits :
          (Decimal.spanDigits (spanSign (behind ++ cut)).2).1 = [] := by
        by_contra digits
        have notEmpty :
            (Decimal.spanDigits (spanSign (behind ++ cut)).2).1.isEmpty =
            false := by
          simpa using digits
        simp [spanExponent, isMark, notEmpty] at nothing
      have stillNone :
          (Decimal.spanDigits (spanSign (behind ++ rest)).2).1 = [] := by
        obtain ⟨kept', cut', isCut, isRest⟩ :=
          @spanSign_cut behind cut rest blank
        rw [isCut] at noDigits
        rw [isRest]
        exact spanDigits_cut_of_nil blank noDigits
      simp [spanExponent, isMark, stillNone]
    · simp [spanExponent, isMark]

/-- An exponent ends where it ended before. -/
theorem spanExponent_cut
    {cs exponent : List Char}
    (spanned : spanExponent cs = (exponent, kept ++ cut)) :
    spanExponent (exponent ++ (kept ++ rest)) = (exponent, kept ++ rest) := by
  cases exponent with
  | nil =>
    have whole := spanExponent_append cs
    rw [spanned, List.nil_append] at whole
    subst whole
    have nothing := spanExponent_cut_of_nil blank (congrArg Prod.fst spanned)
    have stays := spanExponent_append (kept ++ rest)
    rw [nothing, List.nil_append] at stays
    exact Prod.ext nothing stays
  | cons mark exponent =>
    cases cs with
    | nil => cases spanned
    | cons mark' behind =>
      by_cases isMark : (mark' == 'e' || mark' == 'E') = true
      · cases isDigits : (Decimal.spanDigits (spanSign behind).2).1 with
        | nil => simp [spanExponent, isMark, isDigits] at spanned
        | cons d digits =>
          simp only [spanExponent, isMark, isDigits, if_true, List.isEmpty_cons,
            Bool.false_eq_true, if_false, Prod.mk.injEq, List.cons.injEq]
              at spanned
          obtain ⟨⟨rfl, rfl⟩, isRest⟩ := spanned
          have again := spanDigits_cut blank (Prod.ext isDigits isRest)
          have digit : Text.isDigit d = true :=
            isDigit_of_spanDigits (Prod.ext isDigits isRest) d
              List.mem_cons_self
          have signed := spanSign_sign behind digit (digits ++ (kept ++ rest))
          rw [List.cons_append] at again
          simp only [spanExponent, isMark, if_true, List.cons_append,
            List.append_assoc, signed,
            again, List.isEmpty_cons, Bool.false_eq_true, if_false]
      · simp [spanExponent, isMark] at spanned

/-- The first character of an exponent, or of what follows where there is
none. -/
theorem first_of_spanExponent
    {cs exponent : List Char}
    {holds : Char -> Prop}
    (ofBlank : ∀ c, Text.isBlank c = true -> holds c)
    (spanned : spanExponent cs = (exponent, kept ++ cut))
    (ofFirst : ∀ c tail, cs = c :: tail -> holds c)
    (c : Char)
    (tail : List Char)
    (isFirst : exponent ++ (kept ++ rest) = c :: tail) :
    holds c := by
  have whole := spanExponent_append cs
  rw [spanned] at whole
  rw [← whole, ← List.append_assoc] at ofFirst
  rw [← List.append_assoc] at isFirst
  exact blank.first holds ofBlank ofFirst c tail isFirst

/-- A numeral ends where it ended before. -/
theorem numeral?_cut
    {cs characters : List Char}
    {kind : TokenKind}
    (found : numeral? cs = some ⟨kind, characters, kept ++ cut⟩) :
    numeral? (characters ++ (kept ++ rest)) =
      some ⟨kind, characters, kept ++ rest⟩ := by
  have noDigit : ∀ c, Text.isBlank c = true -> Text.isDigit c = false :=
    fun c isBlank => (isBlank_cases isBlank).1
  rw [numeral?_eq_some_iff] at found ⊢
  generalize isLexeme :
    Lexeme.mk kind characters (kept ++ cut) = lexeme at found
  cases found with
  | @pointed whole behind part after exponent _ isWhole isPart isExponent hasDigits =>
    cases isLexeme
    have isPart' : Decimal.spanDigits (part ++ (exponent ++ (kept ++ rest))) =
        (part, exponent ++ (kept ++ rest)) := by
      apply Decimal.spanDigits_of_digits (isDigit_of_spanDigits isPart)
      exact first_of_spanExponent blank noDigit isExponent
        (noDigit_of_spanDigits isPart)
    have isWhole' : Decimal.spanDigits
        (whole ++ ('.' :: (part ++ (exponent ++ (kept ++ rest))))) =
        (whole, '.' :: (part ++ (exponent ++ (kept ++ rest)))) := by
      apply Decimal.spanDigits_of_digits (isDigit_of_spanDigits isWhole)
      intro c tail isFirst
      cases isFirst
      decide
    have isNumeral := StartsWithNumeral.pointed isWhole' isPart'
      (spanExponent_cut blank isExponent) hasDigits
    simpa using isNumeral
  | @unpointed whole after exponent _ isWhole noPoint isExponent hasDigits =>
    cases isLexeme
    have noPoint' : ∀ c tail, exponent ++ (kept ++ rest) = c :: tail ->
        c ≠ '.' := by
      apply first_of_spanExponent blank _ isExponent noPoint
      intro c isBlank
      exact (isBlank_cases isBlank).2.2.1
    have isWhole' : Decimal.spanDigits (whole ++ (exponent ++ (kept ++ rest))) =
        (whole, exponent ++ (kept ++ rest)) := by
      apply Decimal.spanDigits_of_digits (isDigit_of_spanDigits isWhole)
      exact first_of_spanExponent blank noDigit isExponent
        (noDigit_of_spanDigits isWhole)
    have isNumeral := StartsWithNumeral.unpointed isWhole' noPoint'
      (spanExponent_cut blank isExponent) hasDigits
    rw [← List.append_assoc] at isNumeral
    exact isNumeral

/-! ## All lexemes -/

/-- A lexeme other than a numeral ends where it ended before. -/
theorem word?_cut
    {c : Char}
    {cs tail : List Char}
    {kind : TokenKind}
    (found : word? c cs = some ⟨kind, c :: tail, kept ++ cut⟩) :
    word? c (tail ++ (kept ++ rest)) =
      some ⟨kind, c :: tail, kept ++ rest⟩ := by
  by_cases starts : startsIdentifier c = true
  · simp only [word?, starts, if_true, Option.some.injEq, Lexeme.mk.injEq,
      List.cons.injEq, true_and] at found
    obtain ⟨rfl, isTail, isRest⟩ := found
    apply word?_identifier starts
    · intro d member
      rw [← isTail] at member
      exact List.mem_takeWhile_imp member
    · apply blank.first fun d => continuesIdentifier d = false
      · intro d isBlank
        exact (isBlank_cases isBlank).2.1
      · intro d behind isFirst
        have stops := List.head?_dropWhile_not continuesIdentifier cs
        rw [isRest, isFirst] at stops
        simpa using stops
  · obtain ⟨kind?, isSingle⟩ := exists_single (by simpa using starts)
    rw [isSingle] at found ⊢
    obtain ⟨kind', isKind, isLexeme⟩ := Option.map_eq_some_iff.1 found
    cases isLexeme
    rw [isKind]
    rfl

/-- A lexeme ends where it ended before, if the text is cut off in front of a
blank. -/
theorem lexeme?_cut
    {c : Char}
    {cs tail : List Char}
    {kind : TokenKind}
    (found : lexeme? c cs = some ⟨kind, c :: tail, kept ++ cut⟩) :
    lexeme? c (tail ++ (kept ++ rest)) =
      some ⟨kind, c :: tail, kept ++ rest⟩ := by
  cases isNumeral : numeral? (c :: cs) with
  | some lexeme =>
    rw [lexeme?, isNumeral, Option.some_or] at found
    cases found
    rw [lexeme?, ← List.cons_append, numeral?_cut blank isNumeral,
      Option.some_or]
  | none =>
    rw [lexeme?, isNumeral, Option.none_or] at found
    have noPoint : c ≠ '.' := by
      rintro rfl
      exact absurd found (by simp [word?_point])
    rw [lexeme?, numeral?_eq_none (noDigit_of_numeral?_eq_none isNumeral)
      noPoint, Option.none_or]
    exact word?_cut blank found

end

/-- No lexeme marks the end of the input. -/
theorem kind_of_lexeme?
    {c : Char}
    {cs : List Char}
    {lexeme : Lexeme}
    (found : lexeme? c cs = some lexeme) :
    lexeme.kind ≠ .endOfInput := by
  rcases Option.or_eq_some_iff.1 found with isNumeral | ⟨-, isWord⟩
  · cases numeral?_eq_some_iff.1 isNumeral with
    | pointed => simp
    | unpointed =>
      dsimp only
      split <;> simp
  · unfold word? at isWord
    split at isWord
    · cases isWord
      simp
    · split at isWord
      · cases isWord
        simp [single]
      · split at isWord
        · cases isWord
          simp [single]
        · split at isWord
          · cases isWord
            simp [single]
          · cases isWord

/-- The lexeme of an identifier is one.  Everything else that is no numeral is a
single character of another kind. -/
theorem isIdentifier_of_lexeme?
    {c : Char}
    {cs : List Char}
    {lexeme : Lexeme}
    (found : lexeme? c cs = some lexeme)
    (isWord : lexeme.kind = .identifier) :
    IsIdentifier (String.ofList lexeme.characters) := by
  rcases Option.or_eq_some_iff.1 found with isNumeral | ⟨-, found⟩
  · cases numeral?_eq_some_iff.1 isNumeral with
    | pointed => cases isWord
    | unpointed =>
      dsimp only at isWord
      split at isWord <;> cases isWord
  · unfold word? at found
    split at found
    · next starts =>
      cases found
      refine ⟨c, cs.takeWhile continuesIdentifier, String.toList_ofList,
        starts, ?_⟩
      exact fun d member => List.mem_takeWhile_imp member
    · split at found
      · cases found
        cases isWord
      · split at found
        · cases found
          cases isWord
        · split at found
          · cases found
            cases isWord
          · cases found

/-! ## Lists of tokens -/

/-- Characters, the first one standing at `position`, are divided into blanks
and tokens with at least one character each, and the last token marks their
end. -/
inductive Partitions : Nat -> List Char -> List Token -> Prop where
  | atEnd (position : Nat) :
      Partitions position [] [⟨.endOfInput, "", position⟩]
  | blank
      {position : Nat}
      {c : Char}
      {cs : List Char}
      {tokens : List Token}
      (isBlank : Text.isBlank c = true)
      (later : Partitions (position + 1) cs tokens) :
      Partitions position (c :: cs) tokens
  | token
      {position : Nat}
      {kind : TokenKind}
      {characters rest : List Char}
      {tokens : List Token}
      (noEnd : kind ≠ .endOfInput)
      (notEmpty : characters ≠ [])
      (later : Partitions (position + characters.length) rest tokens) :
      Partitions position (characters ++ rest)
        (⟨kind, String.ofList characters, position⟩ :: tokens)

/-- The scanner divides its text. -/
theorem partitions_of_scanFrom
    {position : Nat}
    {cs : List Char}
    {tokens : List Token}
    (scanned : scanFrom position cs = .ok tokens) :
    Partitions position cs tokens := by
  fun_induction scanFrom position cs generalizing tokens with
  | case1 position =>
    cases scanned
    exact .atEnd position
  | case2 position c cs blank inductive_step =>
    exact .blank blank (inductive_step scanned)
  | case3 position c cs noBlank nothing => cases scanned
  | case4 position c cs noBlank lexeme found inductive_step =>
    obtain ⟨later, scannedLater, returned⟩ := Result.bind_eq_ok.1 scanned
    cases returned
    obtain ⟨whole, notEmpty⟩ := lexeme?_append found
    rw [← whole]
    exact .token (kind_of_lexeme? found) notEmpty (inductive_step scannedLater)

/-- Only the last token marks the end, and it stands there. -/
theorem Partitions.exists_lexemes
    {position : Nat}
    {cs : List Char}
    {tokens : List Token}
    (partitions : Partitions position cs tokens) :
    ∃ lexemes, tokens = lexemes ++ [⟨.endOfInput, "", position + cs.length⟩] ∧
      ∀ token ∈ lexemes, token.kind ≠ .endOfInput ∧ token.text ≠ "" := by
  induction partitions with
  | atEnd position => exact ⟨[], rfl, by simp⟩
  | @blank position c cs tokens isBlank later inductive_step =>
    obtain ⟨lexemes, rfl, proper⟩ := inductive_step
    refine ⟨lexemes, ?_, proper⟩
    rw [List.length_cons, Nat.add_assoc, Nat.add_comm 1]
  | @token position kind characters rest tokens noEnd notEmpty later inductive_step =>
    obtain ⟨lexemes, rfl, proper⟩ := inductive_step
    refine ⟨⟨kind, String.ofList characters, position⟩ :: lexemes, ?_,
      List.forall_mem_cons.2 ⟨⟨noEnd, ?_⟩, proper⟩⟩
    · rw [List.length_append, Nat.add_assoc]
      rfl
    · simpa using notEmpty

/-- The tokens of a text end with one that marks the end of the input, and no
other one does. -/
theorem exists_end_of_scanFrom
    {position : Nat}
    {cs : List Char}
    {tokens : List Token}
    (scanned : scanFrom position cs = .ok tokens) :
    ∃ init last, tokens = init ++ [⟨.endOfInput, "", last⟩] ∧
      ∀ token ∈ init, token.kind ≠ .endOfInput := by
  obtain ⟨lexemes, isTokens, proper⟩ :=
    (partitions_of_scanFrom scanned).exists_lexemes
  exact ⟨lexemes, _, isTokens, fun token member => (proper token member).1⟩

/-- A token of a text marks its end, or it is a lexeme without a blank in
front. -/
theorem exists_lexeme_of_mem
    {position : Nat}
    {cs : List Char}
    {tokens : List Token}
    (scanned : scanFrom position cs = .ok tokens)
    (token : Token)
    (member : token ∈ tokens) :
    token.piece = (.endOfInput, "") ∨
      ∃ c rest lexeme, Text.isBlank c = false ∧ lexeme? c rest = some lexeme ∧
        token.piece = (lexeme.kind, String.ofList lexeme.characters) := by
  fun_induction scanFrom position cs generalizing tokens with
  | case1 position =>
    cases scanned
    obtain rfl := List.mem_singleton.1 member
    exact .inl rfl
  | case2 position c cs blank inductive_step =>
    exact inductive_step scanned member
  | case3 position c cs noBlank nothing => cases scanned
  | case4 position c cs noBlank lexeme found inductive_step =>
    obtain ⟨later, scannedLater, returned⟩ := Result.bind_eq_ok.1 scanned
    cases returned
    rcases List.mem_cons.1 member with rfl | inLater
    · exact .inr ⟨c, cs, lexeme, by simpa using noBlank, found, rfl⟩
    · exact inductive_step scannedLater inLater

/-- The identifiers among the tokens of a text are named by identifiers. -/
theorem isIdentifier_of_scanFrom
    {position : Nat}
    {cs : List Char}
    {tokens : List Token}
    (scanned : scanFrom position cs = .ok tokens)
    (token : Token)
    (member : token ∈ tokens)
    (isWord : token.kind = .identifier) :
    IsIdentifier token.text := by
  rcases exists_lexeme_of_mem scanned token member with
    isEnd | ⟨c, rest, lexeme, -, found, isLexeme⟩
  · obtain ⟨isEnd, -⟩ := Prod.mk.inj isEnd
    rw [isEnd] at isWord
    cases isWord
  · obtain ⟨isKind, isText⟩ := Prod.mk.inj isLexeme
    rw [isText]
    exact isIdentifier_of_lexeme? found (isKind.symm.trans isWord)

/-- The characters are cut into the tokens wherever a blank follows them. -/
def ScansAs (position : Nat) (cs : List Char) (tokens : List Token) : Prop :=
  ∀ rest later, StartsBlank rest ->
    scanFrom (position + cs.length) rest = .ok later ->
    scanFrom position (cs ++ rest) = .ok (tokens ++ later)

theorem ScansAs.nil (position : Nat) : ScansAs position [] [] := by
  intro rest later _ scanned
  exact scanned

/-- The first tokens of a text stay the same if the text is cut off behind
them. -/
theorem exists_scansAs
    {position : Nat}
    {cs : List Char}
    {before after : List Token}
    (scanned : scanFrom position cs = .ok (before ++ after))
    (noEnd : ∀ token ∈ before, token.kind ≠ .endOfInput) :
    ∃ kept cut, cs = kept ++ cut ∧ ScansAs position kept before := by
  fun_induction scanFrom position cs generalizing before with
  | case1 position =>
    cases before with
    | nil => exact ⟨[], [], rfl, .nil position⟩
    | cons token before =>
      obtain ⟨rfl, -⟩ := List.cons_eq_cons.1 (Except.ok.inj scanned)
      exact absurd rfl (noEnd _ List.mem_cons_self)
  | case2 position c cs blank inductive_step =>
    obtain ⟨kept, cut, rfl, scans⟩ := inductive_step scanned noEnd
    refine ⟨c :: kept, cut, rfl, ?_⟩
    intro rest later isBlank scannedLater
    rw [List.cons_append, scanFrom, if_pos blank]
    apply scans rest later isBlank
    rw [← scannedLater, List.length_cons, Nat.add_assoc, Nat.add_comm 1]
  | case3 position c cs noBlank nothing => cases scanned
  | case4 position c cs noBlank lexeme found inductive_step =>
    cases before with
    | nil => exact ⟨[], c :: cs, rfl, .nil position⟩
    | cons token before =>
      obtain ⟨later, scannedLater, returned⟩ := Result.bind_eq_ok.1 scanned
      obtain ⟨rfl, rfl⟩ := List.cons_eq_cons.1 (Except.ok.inj returned)
      obtain ⟨kept, cut, isRest, scans⟩ :=
        inductive_step scannedLater fun token member =>
        noEnd token (List.mem_cons_of_mem _ member)
      obtain ⟨kind, characters, behind⟩ := lexeme
      obtain ⟨whole, notEmpty⟩ := lexeme?_append found
      obtain ⟨first, tail, rfl⟩ := List.exists_cons_of_ne_nil notEmpty
      dsimp only at isRest whole scans
      subst isRest
      obtain ⟨rfl, rfl⟩ := List.cons_eq_cons.1 whole
      refine ⟨first :: tail ++ kept, cut, by simp, ?_⟩
      intro rest later' isBlank scannedRest
      have found' := lexeme?_cut isBlank found
      rw [List.length_append, ← Nat.add_assoc] at scannedRest
      rw [List.cons_append, List.cons_append, List.append_assoc,
        scanFrom_of_lexeme? position (by simpa using noBlank) found',
        scans rest later' isBlank scannedRest]
      rfl

end Token
end Symbolic
