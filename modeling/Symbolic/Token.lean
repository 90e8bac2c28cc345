import Symbolic.Decimal.Reader
import Symbolic.Error
import Symbolic.Text.Alphanumeric

/-!
# Tokens

A text is cut into numerals, identifiers, parentheses and operators of one
character; blanks between them are skipped.  Real numerals come before integer
ones: digits with a point or an exponent belong to one token.  Every lexeme is a
non-empty part of the text, so that scanning ends.
-/

namespace Symbolic

/-- The kinds of tokens. -/
inductive TokenKind where
  | integer
  | real
  | identifier
  | operator
  | opening
  | closing
  | endOfInput
deriving DecidableEq, Repr

/-- A token with its text and the position of its first character. -/
structure Token where
  kind : TokenKind
  text : String
  position : Nat
deriving DecidableEq, Repr

namespace Token

/-- A lexeme at the front of a text and what follows it. -/
structure Lexeme where
  kind : TokenKind
  characters : List Char
  rest : List Char

/-- A sign at the front, if there is one. -/
def spanSign : List Char -> List Char × List Char
  | '+' :: rest => (['+'], rest)
  | '-' :: rest => (['-'], rest)
  | cs => ([], cs)

/-- An exponent at the front: a mark, an optional sign and at least one digit.
Without such an exponent nothing is taken. -/
def spanExponent : List Char -> List Char × List Char
  | [] => ([], [])
  | mark :: behind =>
    if mark == 'e' || mark == 'E' then
      let sign := spanSign behind
      let exponent := Decimal.spanDigits sign.2
      if exponent.1.isEmpty then ([], mark :: behind)
      else (mark :: (sign.1 ++ exponent.1), exponent.2)
    else ([], mark :: behind)

/-- A numeral at the front.  It is real if it has a point or an exponent. -/
def numeral? (cs : List Char) : Option Lexeme :=
  let whole := Decimal.spanDigits cs
  match whole.2 with
  | '.' :: behind =>
    let part := Decimal.spanDigits behind
    let exponent := spanExponent part.2
    if whole.1.isEmpty && part.1.isEmpty then none
    else some ⟨.real, whole.1 ++ ('.' :: part.1 ++ exponent.1), exponent.2⟩
  | after =>
    let exponent := spanExponent after
    if whole.1.isEmpty then none
    else if exponent.1.isEmpty then some ⟨.integer, whole.1, after⟩
    else some ⟨.real, whole.1 ++ exponent.1, exponent.2⟩

/-- A character that may start an identifier. -/
def startsIdentifier (c : Char) : Bool :=
  c.isAlpha || c == '_'

/-- A character that may continue an identifier. -/
def continuesIdentifier (c : Char) : Bool :=
  c.isAlphanum || c == '_'

/-- A character that is an operator: neither part of a word, nor blank, nor a
parenthesis, nor a point. -/
def isOperator (c : Char) : Bool :=
  !(Text.isWordCharacter c || Text.isBlank c || c == '(' || c == ')' ||
    c == '.')

/-- A lexeme of one character. -/
def single (kind : TokenKind) (c : Char) (rest : List Char) : Lexeme :=
  ⟨kind, [c], rest⟩

/-- A lexeme other than a numeral, given by its first character. -/
def word? (c : Char) (rest : List Char) : Option Lexeme :=
  if startsIdentifier c then
    some ⟨.identifier, c :: rest.takeWhile continuesIdentifier,
      rest.dropWhile continuesIdentifier⟩
  else if c == '(' then some (single .opening c rest)
  else if c == ')' then some (single .closing c rest)
  else if isOperator c then some (single .operator c rest)
  else none

/-- The lexeme at the front of a text that starts with the given character. -/
def lexeme? (c : Char) (rest : List Char) : Option Lexeme :=
  (numeral? (c :: rest)).or (word? c rest)

/-- A sign is taken off the front. -/
theorem spanSign_append (cs : List Char) :
    (spanSign cs).1 ++ (spanSign cs).2 = cs := by
  unfold spanSign
  split <;> rfl

/-- An exponent is taken off the front. -/
theorem spanExponent_append
    (cs : List Char) :
    (spanExponent cs).1 ++ (spanExponent cs).2 = cs := by
  cases cs with
  | nil => rfl
  | cons mark behind =>
    simp only [spanExponent]
    split
    · split
      · rfl
      · simp [spanSign_append]
    · rfl

/-- A numeral is a non-empty part of the text, followed by the rest of it. -/
theorem numeral?_append
    {cs : List Char}
    {lexeme : Lexeme}
    (found : numeral? cs = some lexeme) :
    lexeme.characters ++ lexeme.rest = cs ∧ lexeme.characters ≠ [] := by
  have whole := Decimal.spanDigits_append cs
  simp only [numeral?] at found
  split at found
  · next behind after =>
    have part := Decimal.spanDigits_append behind
    have exponent := spanExponent_append (Decimal.spanDigits behind).2
    split at found
    · simp at found
    · simp only [Option.some.injEq] at found
      subst found
      constructor
      · simp only [List.append_assoc, List.cons_append, exponent, part]
        rw [← after, whole]
      · simp
  · have exponent := spanExponent_append (Decimal.spanDigits cs).2
    split at found
    · simp at found
    · next notEmpty =>
      split at found
      · simp only [Option.some.injEq] at found
        subst found
        exact ⟨whole, by simpa using notEmpty⟩
      · simp only [Option.some.injEq] at found
        subst found
        refine ⟨by simp only [List.append_assoc, exponent, whole], ?_⟩
        simp only [List.isEmpty_iff] at notEmpty
        simp [notEmpty]

/-- So is a lexeme of any other kind. -/
theorem word?_append
    {c : Char}
    {rest : List Char}
    {lexeme : Lexeme}
    (found : word? c rest = some lexeme) :
    lexeme.characters ++ lexeme.rest = c :: rest ∧ lexeme.characters ≠ [] := by
  simp only [word?] at found
  split at found
  · simp only [Option.some.injEq] at found
    subst found
    exact ⟨by simp, by simp⟩
  · split at found
    · simp only [Option.some.injEq] at found
      subst found
      exact ⟨rfl, by simp [single]⟩
    · split at found
      · simp only [Option.some.injEq] at found
        subst found
        exact ⟨rfl, by simp [single]⟩
      · split at found
        · simp only [Option.some.injEq] at found
          subst found
          exact ⟨rfl, by simp [single]⟩
        · simp at found

/-- A lexeme is a non-empty part of the text, followed by the rest of the
text. -/
theorem lexeme?_append
    {c : Char}
    {rest : List Char}
    {lexeme : Lexeme}
    (found : lexeme? c rest = some lexeme) :
    lexeme.characters ++ lexeme.rest = c :: rest ∧ lexeme.characters ≠ [] := by
  cases numeral : numeral? (c :: rest) with
  | none => exact word?_append (by simpa [lexeme?, numeral] using found)
  | some other =>
    simp only [lexeme?, numeral, Option.some_or, Option.some.injEq] at found
    subst found
    exact numeral?_append numeral

/-- A lexeme leaves fewer characters behind it, which is why scanning ends. -/
theorem lexeme?_rest_length
    {c : Char}
    {rest : List Char}
    {lexeme : Lexeme}
    (found : lexeme? c rest = some lexeme) :
    lexeme.rest.length < (c :: rest).length := by
  obtain ⟨whole, notEmpty⟩ := lexeme?_append found
  have positive := List.length_pos_iff.2 notEmpty
  rw [← whole, List.length_append]
  omega

/-- Cut characters into tokens, the first one standing at `position`. -/
def scanFrom (position : Nat) (cs : List Char) : Result (List Token) :=
  match cs with
  | [] => .ok [⟨.endOfInput, "", position⟩]
  | c :: rest =>
    if Text.isBlank c then scanFrom (position + 1) rest
    else
      match _found : lexeme? c rest with
      | none => .error (.notAnExpression position (.unexpectedCharacter c))
      | some lexeme => do
        let later ← scanFrom (position + lexeme.characters.length) lexeme.rest
        return ⟨lexeme.kind, String.ofList lexeme.characters, position⟩ :: later
termination_by cs.length
decreasing_by
  · exact Nat.lt_succ_self _
  · exact lexeme?_rest_length _found

/-- Cut a text into tokens, the last one marking the end of the input. -/
def scan (text : String) : Result (List Token) :=
  scanFrom 0 text.toList

end Token
end Symbolic
