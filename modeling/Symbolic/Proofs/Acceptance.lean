import Symbolic.Proofs.GrammarReading
import Symbolic.Proofs.TokenBoundaries

/-!
# What the parser accepts

The parser accepts the tokens of a text exactly when they derive from the
grammar, up to integer literals that are too long.  Otherwise it reports the
first token behind which nothing could make them an expression: a text that
breaks off in front of that token can be continued to an expression, one that
goes on with it cannot.
-/

namespace Symbolic
namespace Parse

variable {registry : Registry}

/-- What the parser makes of tokens and an end of the input, whatever follows
the end. -/
inductive Verdict (registry : Registry) (init : List Token)
    (last : Token) : Prop where
  | accepts
      (e : Expr)
      (expression : Derives registry .expression init)
      (result : ∀ more, tokens registry (init ++ last :: more) = .ok e)
  | breaksOff
      (before behind : List Token)
      (token : Token)
      (fault : SyntaxFault)
      (place : Place)
      (split : init ++ [last] = before ++ token :: behind)
      (reached : Place.behind registry ⟨0, true⟩ before = some place)
      (stops : place.next registry token = none)
      (result : ∀ more, tokens registry (init ++ last :: more) =
        .error (.notAnExpression token.position fault))
  | refuses
      (token : Token)
      (member : token ∈ init ++ [last])
      (tooLong : IsTooLong token)
      (result : ∀ more, tokens registry (init ++ last :: more) =
        .error (.literalTooLong token.text.length))

/-- The only end of the input stands behind everything else. -/
theorem eq_of_append_end
    {init used rest : List Token}
    {last token : Token}
    (noEnd : ∀ other ∈ init, other.kind ≠ .endOfInput)
    (isEnd : token.kind = .endOfInput)
    (split : init ++ [last] = used ++ token :: rest) :
    used = init ∧ token = last ∧ rest = [] := by
  rcases List.eq_nil_or_concat rest with rfl | ⟨rest', other, rfl⟩
  · obtain ⟨rfl, same⟩ := List.append_inj' split rfl
    cases same
    exact ⟨rfl, rfl, rfl⟩
  · have shifted : init ++ [last] = (used ++ token :: rest') ++ [other] := by
      simp [split]
    obtain ⟨rfl, -⟩ := List.append_inj' shifted rfl
    exact absurd isEnd (noEnd token (by simp))

/-- The parser gives a verdict on all tokens that come to an end. -/
theorem verdict
    {multiplicative : Operation}
    (isMultiplicative : registry.multiplicative = some multiplicative)
    {init : List Token}
    {last : Token}
    (noEnd : ∀ token ∈ init, token.kind ≠ .endOfInput)
    (isEnd : last.kind = .endOfInput) :
    Verdict registry init last := by
  have hasEnd : HasEnd (init ++ [last]) := ⟨last, by simp, isEnd⟩
  have shifted :
      ∀ more, init ++ last :: more = init ++ [last] ++ more := by simp
  cases (followsUpTo isMultiplicative _).expression 0 _ (Nat.le_refl _)
    hasEnd with
  | succeeds e used rest split expression ends result =>
    rw [split] at hasEnd
    obtain ⟨⟨kind, text, position⟩, behind, rfl⟩ :=
      (hasEnd.of_append fun _ => expression.kind_ne_endOfInput).exists_cons
    by_cases atEnd : kind = .endOfInput
    · obtain ⟨rfl, rfl, rfl⟩ := eq_of_append_end noEnd atEnd split
      apply Verdict.accepts e expression
      intro more
      rw [shifted, tokens_eq, result, atEnd]
      rfl
    · have noOperator : kind ≠ .operator := by
        intro isOperator
        subst isOperator
        obtain ⟨operation, -, below⟩ := ends text position behind rfl
        omega
      apply Verdict.breaksOff used behind ⟨kind, text, position⟩
        (.expectedEnd (.token text)) ⟨0, false⟩ split (expression.behind_eq 0)
      · cases kind <;> first | rfl | contradiction
      · intro more
        rw [shifted, tokens_eq, result]
        cases kind <;> first | rfl | contradiction
  | fails before behind token fault split breaksOff result =>
    obtain ⟨place, reached, stops⟩ := breaksOff 0
    apply Verdict.breaksOff before behind token fault place split reached stops
    intro more
    rw [shifted, tokens_eq, result]
    rfl
  | refuses token member tooLong result =>
    apply Verdict.refuses token member tooLong
    intro more
    rw [shifted, tokens_eq, result]
    rfl

/-- A reader gets through an expression and the end of the input. -/
theorem Derives.behind_end
    {init : List Token}
    {last : Token}
    (expression : Derives registry .expression init)
    (isEnd : last.kind = .endOfInput) :
    Place.behind registry ⟨0, true⟩ (init ++ [last]) = some ⟨0, false⟩ := by
  simp [expression.behind_eq, Place.next, isEnd]

/-! ## Continuations -/

/-- The parser accepts the tokens of a text. -/
structure Accepts (registry : Registry) (tokens : List Token) : Prop where
  scanned : ∃ text, Token.scan text = .ok tokens
  parsed : ∃ e, Parse.tokens registry tokens = .ok e

/-- A reader gets through all tokens that are accepted. -/
theorem Accepts.behind_eq
    {multiplicative : Operation}
    (isMultiplicative : registry.multiplicative = some multiplicative)
    {tokens : List Token}
    (accepts : Accepts registry tokens) :
    Place.behind registry ⟨0, true⟩ tokens = some ⟨0, false⟩ := by
  obtain ⟨⟨text, scanned⟩, e, parsed⟩ := accepts
  obtain ⟨init, position, rfl, noEnd⟩ := Token.exists_end_of_scanFrom scanned
  have isVerdict : Verdict registry init ⟨.endOfInput, "", position⟩ :=
    verdict isMultiplicative noEnd rfl
  cases isVerdict with
  | accepts e expression result => exact expression.behind_end rfl
  | breaksOff before behind token fault place split reached stops result =>
    rw [result []] at parsed
    cases parsed
  | refuses token member tooLong result =>
    rw [result []] at parsed
    cases parsed

/-- Closing parentheses close what is open. -/
theorem exists_closings
    (registry : Registry)
    (depth position : Nat) :
    ∃ closings last, Token.scanFrom position (List.replicate depth ')') =
        .ok (closings ++ [⟨.endOfInput, "", last⟩]) ∧
      Place.behind registry ⟨depth, false⟩ closings = some ⟨0, false⟩ ∧
      ∀ token ∈ closings, token.kind = .closing := by
  induction depth generalizing position with
  | zero =>
    exact ⟨[], position, by rw [List.replicate_zero, Token.scanFrom]; rfl, rfl,
      by simp⟩
  | succ depth inductive_step =>
    obtain ⟨closings, last, scanned, closed, areClosing⟩ :=
      inductive_step (position + 1)
    have lexeme : Token.lexeme? ')' (List.replicate depth ')') =
        some (Token.single .closing ')' (List.replicate depth ')')) := by
      rw [Token.lexeme?, Token.numeral?_eq_none (by decide) (by decide)]
      rfl
    refine ⟨⟨.closing, ")", position⟩ :: closings, last, ?_, ?_, ?_⟩
    · rw [List.replicate_succ,
        Token.scanFrom_of_lexeme? position (by decide) lexeme]
      exact congrArg (· >>= _) scanned
    · rw [Place.behind_cons]
      exact closed
    · intro token member
      rcases List.mem_cons.1 member with rfl | inClosings
      · rfl
      · exact areClosing token inClosings

/-- At every place some tokens complete an expression. -/
theorem exists_continuation
    (registry : Registry)
    (place : Place)
    (position : Nat) :
    ∃ cs tokens last, Token.scanFrom position cs =
      .ok (tokens ++ [⟨.endOfInput, "", last⟩]) ∧
      Place.behind registry place tokens = some ⟨0, false⟩ ∧
      ∀ token ∈ tokens, token.kind = .identifier ∨ token.kind = .closing := by
  obtain ⟨depth, needsOperand⟩ := place
  cases needsOperand with
  | false =>
    obtain ⟨closings, last, scanned, closed, areClosing⟩ :=
      exists_closings registry depth position
    exact ⟨List.replicate depth ')', closings, last, scanned, closed,
      fun token member => .inr (areClosing token member)⟩
  | true =>
    obtain ⟨closings, last, scanned, closed, areClosing⟩ :=
      exists_closings registry depth (position + 1)
    have lexeme : Token.lexeme? 'x' (List.replicate depth ')') =
        some ⟨.identifier, ['x'], List.replicate depth ')'⟩ := by
      rw [Token.lexeme?, Token.numeral?_eq_none (by decide) (by decide),
        Option.none_or]
      apply @Token.word?_identifier 'x' [] _ (by decide) (by simp)
      intro c tail isFirst
      have member : c ∈ List.replicate depth ')' := by
        rw [isFirst]
        exact List.mem_cons_self
      rw [List.eq_of_mem_replicate member]
      decide
    refine ⟨'x' :: List.replicate depth ')',
      ⟨.identifier, "x", position⟩ :: closings, last, ?_, ?_, ?_⟩
    · rw [Token.scanFrom_of_lexeme? position (by decide) lexeme]
      exact congrArg (· >>= _) scanned
    · rw [Place.behind_cons]
      exact closed
    · intro token member
      rcases List.mem_cons.1 member with rfl | inClosings
      · exact .inl rfl
      · exact .inr (areClosing token inClosings)

/-- The first tokens of a text that a reader gets through start the tokens of a
text that is accepted.  None of these tokens stops the reader. -/
theorem exists_accepts
    {multiplicative : Operation}
    (isMultiplicative : registry.multiplicative = some multiplicative)
    {text : String}
    {before after : List Token}
    (scanned : Token.scan text = .ok (before ++ after))
    (noEnd : ∀ token ∈ before, token.kind ≠ .endOfInput)
    (short : ∀ token ∈ before, ¬IsTooLong token)
    {place : Place}
    (reached : Place.behind registry ⟨0, true⟩ before = some place) :
    ∃ accepted, Accepts registry accepted ∧ before <+: accepted := by
  obtain ⟨kept, cut, -, scans⟩ := Token.exists_scansAs scanned noEnd
  obtain ⟨cs, later, last, scannedLater, completes, kinds⟩ :=
    exists_continuation registry place (0 + kept.length + 1)
  have whole : Token.scan (String.ofList (kept ++ ' ' :: cs)) =
      .ok (before ++ later ++ [⟨.endOfInput, "", last⟩]) := by
    rw [Token.scan, String.toList_ofList, List.append_assoc]
    apply scans
    · intro c tail isFirst
      cases isFirst
      decide
    · rw [Token.scanFrom, if_pos (by decide)]
      exact scannedLater
  have noEnd' : ∀ token ∈ before ++ later, token.kind ≠ .endOfInput := by
    intro token member
    rcases List.mem_append.1 member with inBefore | inLater
    · exact noEnd token inBefore
    · rcases kinds token inLater with kind | kind <;> simp [kind]
  have isVerdict : Verdict registry (before ++ later) ⟨.endOfInput, "", last⟩ :=
    verdict isMultiplicative noEnd' rfl
  refine ⟨before ++ later ++ [⟨.endOfInput, "", last⟩], ⟨⟨_, whole⟩, ?_⟩, ?_⟩
  · cases isVerdict with
    | accepts e expression result => exact ⟨e, result []⟩
    | breaksOff before' behind token fault place' split reached' stops result =>
      have passes : Place.behind registry ⟨0, true⟩
          (before ++ later ++ [⟨.endOfInput, "", last⟩]) = some ⟨0, false⟩ := by
        simp [reached, completes, Place.next]
      rw [split] at passes
      simp [reached', stops] at passes
    | refuses token member tooLong result =>
      exfalso
      rcases List.mem_append.1 member with inText | isLast
      · rcases List.mem_append.1 inText with inBefore | inLater
        · exact short token inBefore tooLong
        · rcases kinds token inLater with kind | kind <;>
            simp [IsTooLong, kind] at tooLong
      · obtain rfl := List.mem_singleton.1 isLast
        cases tooLong.1
  · rw [List.append_assoc]
    exact List.prefix_append before _

/-- No tokens that are accepted start with tokens that stop a reader. -/
theorem Accepts.not_prefix
    {multiplicative : Operation}
    (isMultiplicative : registry.multiplicative = some multiplicative)
    {accepted before : List Token}
    (accepts : Accepts registry accepted)
    {token : Token}
    {place : Place}
    (reached : Place.behind registry ⟨0, true⟩ before = some place)
    (stops : place.next registry token = none) :
    ¬before ++ [token] <+: accepted := by
  rintro ⟨after, rfl⟩
  have passes := accepts.behind_eq isMultiplicative
  simp [reached, stops] at passes

/-! ## The parser and the grammar -/

/-- The tokens in front of the end of the input. -/
def beforeEnd (tokens : List Token) : List Token :=
  tokens.takeWhile fun token => token.kind != .endOfInput

theorem beforeEnd_append
    {init : List Token}
    {last : Token}
    (noEnd : ∀ token ∈ init, token.kind ≠ .endOfInput)
    (isEnd : last.kind = .endOfInput) :
    beforeEnd (init ++ [last]) = init := by
  rw [beforeEnd, List.takeWhile_append_of_pos]
  · simp [isEnd]
  · intro token member
    simpa using noEnd token member

/-- What stops a reader stands behind tokens that do not end the input. -/
theorem noEnd_of_split
    {init before behind : List Token}
    {last token : Token}
    (noEnd : ∀ other ∈ init, other.kind ≠ .endOfInput)
    (split : init ++ [last] = before ++ token :: behind)
    (other : Token)
    (member : other ∈ before) :
    other.kind ≠ .endOfInput := by
  intro isEnd
  obtain ⟨front, back, rfl⟩ := List.append_of_mem member
  have shifted : init ++ [last] =
      front ++ other :: (back ++ token :: behind) := by simp [split]
  obtain ⟨-, -, nothing⟩ := eq_of_append_end noEnd isEnd shifted
  simp at nothing

/-- The parser reports the position of the first token with which the tokens up
to there start no tokens that are accepted. -/
def ReportsFirstError (registry : Registry) (input : List Token) : Prop :=
  ∃ before token behind fault, input = before ++ token :: behind ∧
    tokens registry input = .error (.notAnExpression token.position fault) ∧
    (∃ accepted, Accepts registry accepted ∧ before <+: accepted) ∧
    ∀ accepted, Accepts registry accepted -> ¬before ++ [token] <+: accepted

/-- The standard parser on the tokens of a text whose integer literals are not
too long: it returns a tree exactly when the tokens derive from the grammar, it
never looks behind the end of the input, and otherwise it reports the first
error. -/
theorem derives_or_first_error
    {text : String}
    {input : List Token}
    (scanned : Token.scan text = .ok input)
    (short : ∀ token ∈ input, ¬IsTooLong token) :
    ((∃ e, tokens .standard input = .ok e) ↔
        Derives .standard .expression (beforeEnd input)) ∧
      (∀ more, tokens .standard (input ++ more) = tokens .standard input) ∧
      (¬Derives .standard .expression (beforeEnd input) ->
        ReportsFirstError .standard input) := by
  obtain ⟨init, position, rfl, noEnd⟩ := Token.exists_end_of_scanFrom scanned
  have isVerdict : Verdict .standard init ⟨.endOfInput, "", position⟩ :=
    verdict rfl noEnd rfl
  rw [beforeEnd_append noEnd rfl]
  cases isVerdict with
  | accepts e expression result =>
    refine ⟨⟨fun _ => expression, fun _ => ⟨e, result []⟩⟩, ?_, ?_⟩
    · intro more
      rw [result [], List.append_assoc]
      exact result more
    · intro noExpression
      exact absurd expression noExpression
  | breaksOff before behind token fault place split reached stops result =>
    have noExpression : ¬Derives .standard .expression init := by
      intro expression
      have passes := @Derives.behind_end .standard init
        ⟨.endOfInput, "", position⟩ expression rfl
      rw [split] at passes
      simp [reached, stops] at passes
    refine ⟨⟨?_, fun expression => absurd expression noExpression⟩, ?_, ?_⟩
    · rintro ⟨e, parsed⟩
      rw [result []] at parsed
      cases parsed
    · intro more
      rw [result [], List.append_assoc]
      exact result more
    · intro _
      refine ⟨before, token, behind, fault, split, result [], ?_, ?_⟩
      · rw [split] at scanned short
        exact exists_accepts rfl scanned (noEnd_of_split noEnd split)
          (fun other member =>
            short other (List.mem_append_left _ member)) reached
      · intro accepted accepts
        exact accepts.not_prefix rfl reached stops
  | refuses token member tooLong result =>
    exact absurd tooLong (short token member)

/-- A sum without its second operand. -/
def missingOperand : List Token :=
  [⟨.operator, "-", 0⟩, ⟨.integer, "2", 1⟩, ⟨.operator, "*", 2⟩,
    ⟨.opening, "(", 3⟩,
    ⟨.identifier, "x", 4⟩, ⟨.operator, "+", 5⟩, ⟨.closing, ")", 6⟩,
      ⟨.endOfInput, "", 7⟩]

theorem derives_or_first_error_missingOperand :
    Token.scan "-2*(x+)" = .ok missingOperand ∧
      tokens .standard missingOperand =
        .error (.notAnExpression 6 (.expectedOperand (.token ")"))) ∧
      ReportsFirstError .standard missingOperand := by
  have scanned : Token.scan "-2*(x+)" = .ok missingOperand :=
    Result.eq_ok_of_toOption (by decide +kernel)
  have two : integerLiteral "2" = .ok 2 :=
    Result.eq_ok_of_toOption (by decide +kernel)
  have inside : plainExpression .standard 0
      [⟨.identifier, "x", 4⟩, ⟨.operator, "+", 5⟩, ⟨.closing, ")", 6⟩,
        ⟨.endOfInput, "", 7⟩] =
      .error (.notAnExpression 6 (.expectedOperand (.token ")"))) := by
    rw [plainExpression_eq, plainUnary_other _ (by simp),
      plainPrimary_identifier, Result.ok_bind]
    dsimp only
    rw [plainOperators_operator]
    show (plainExpression .standard 1 _ >>= _) = _
    rw [plainExpression_eq, plainUnary_other _ (by simp),
      plainPrimary_other _ (by rintro _ _ ⟨⟩; rfl)]
    rfl
  have failed : tokens .standard missingOperand =
      .error (.notAnExpression 6 (.expectedOperand (.token ")"))) := by
    rw [tokens_eq, missingOperand, plainExpression_eq,
      plainUnary_minus_integer, two, Result.ok_bind, Result.ok_bind]
    dsimp only
    rw [plainOperators_operator]
    show ((plainExpression .standard 2 _ >>= _) >>= _) = _
    rw [plainExpression_eq, plainUnary_other _ (by simp), plainPrimary_opening,
      inside]
    rfl
  have short : ∀ token ∈ missingOperand, ¬IsTooLong token := by
    unfold IsTooLong
    decide
  obtain ⟨accepts, -, reports⟩ := derives_or_first_error scanned short
  refine ⟨scanned, failed, reports ?_⟩
  intro expression
  obtain ⟨e, parsed⟩ := accepts.2 expression
  rw [failed] at parsed
  cases parsed

end Parse
end Symbolic
