import Symbolic.Proofs.Grammar

/-!
# The parser follows the grammar

Every part of the parser either reads tokens that derive from the grammar, or it
reports the first token that cannot stand where it stands.  In both cases it
never looks at what follows the end of the input.
-/

namespace Symbolic
namespace Parse

/-- The tokens come to an end. -/
def HasEnd (tokens : List Token) : Prop :=
  ∃ token ∈ tokens, token.kind = .endOfInput

theorem HasEnd.of_append
    {used rest : List Token}
    (hasEnd : HasEnd (used ++ rest))
    (noEnd : ∀ token ∈ used, token.kind ≠ .endOfInput) :
    HasEnd rest := by
  obtain ⟨last, member, isEnd⟩ := hasEnd
  rcases List.mem_append.1 member with inUsed | inRest
  · exact absurd isEnd (noEnd last inUsed)
  · exact ⟨last, inRest, isEnd⟩

theorem HasEnd.tail
    {token : Token}
    {behind : List Token}
    (hasEnd : HasEnd (token :: behind))
    (noEnd : token.kind ≠ .endOfInput) :
    HasEnd behind := by
  apply @HasEnd.of_append [token] behind hasEnd
  intro other member
  obtain rfl := List.mem_singleton.1 member
  exact noEnd

theorem HasEnd.exists_cons
    {tokens : List Token}
    (hasEnd : HasEnd tokens) :
    ∃ token behind, tokens = token :: behind := by
  obtain ⟨last, member, -⟩ := hasEnd
  exact List.exists_cons_of_ne_nil (List.ne_nil_of_mem member)

variable (registry : Registry)

/-- After the tokens `before` the token cannot stand, however many parentheses
are open. -/
def BreaksOff (needsOperand : Bool) (before : List Token) (token : Token) :
    Prop :=
  ∀ depth, ∃ place, Place.behind registry ⟨depth, needsOperand⟩ before =
    some place ∧
    place.next registry token = none

/-- An integer literal that is refused because of its length. -/
def IsTooLong (token : Token) : Prop :=
  token.kind = .integer ∧ Number.digitLimit < token.text.length

/-- A part of the parser reads good tokens up to an end, or it reports where
they break off, or it refuses an integer literal, whatever follows the
tokens. -/
inductive Reads
    (needsOperand : Bool)
    (good ends : List Token -> Prop)
    (read : List Token -> Result (Expr × List Token))
    (tokens : List Token) : Prop where
  | succeeds
      (e : Expr)
      (used rest : List Token)
      (split : tokens = used ++ rest)
      (isGood : good used)
      (atEnd : ends rest)
      (result : ∀ more, read (tokens ++ more) = .ok (e, rest ++ more))
  | fails
      (before behind : List Token)
      (token : Token)
      (fault : SyntaxFault)
      (split : tokens = before ++ token :: behind)
      (breaksOff : BreaksOff registry needsOperand before token)
      (result : ∀ more, read (tokens ++ more) =
        .error (.notAnExpression token.position fault))
  | refuses
      (token : Token)
      (member : token ∈ tokens)
      (tooLong : IsTooLong token)
      (result : ∀ more, read (tokens ++ more) =
        .error (.literalTooLong token.text.length))

/-- Tokens that may follow every expression: registered operators with
operands. -/
def DerivesTail (used : List Token) : Prop :=
  ∀ tokens, Derives registry .expression tokens ->
    Derives registry .expression (tokens ++ used)

variable {registry}

theorem DerivesTail.nil : DerivesTail registry [] := by
  intro tokens expression
  rw [List.append_nil]
  exact expression

namespace Reads

variable {needsOperand needsOperand' : Bool}
  {good good' good'' ends ends' : List Token -> Prop}
  {read read' : List Token -> Result (Expr × List Token)}

/-- Nothing is read. -/
theorem nothing
    {tokens : List Token}
    (e : Expr)
    (isGood : good [])
    (atEnd : ends tokens)
    (result : ∀ more, read (tokens ++ more) = .ok (e, tokens ++ more)) :
    Reads registry needsOperand good ends read tokens :=
  succeeds e [] tokens rfl isGood atEnd result

/-- A single token is read. -/
theorem one
    {token : Token}
    {behind : List Token}
    (e : Expr)
    (isGood : good [token])
    (atEnd : ends behind)
    (result : ∀ more, read (token :: (behind ++ more)) =
      .ok (e, behind ++ more)) :
    Reads registry needsOperand good ends read (token :: behind) :=
  succeeds e [token] behind rfl isGood atEnd result

/-- The first token cannot stand here. -/
theorem stuck
    {token : Token}
    {behind : List Token}
    (fault : SyntaxFault)
    (stops : ∀ depth, Place.next registry ⟨depth, needsOperand⟩ token = none)
    (result : ∀ more, read (token :: (behind ++ more)) =
      .error (.notAnExpression token.position fault)) :
    Reads registry needsOperand good ends read (token :: behind) := by
  apply fails [] behind token fault rfl _ result
  intro depth
  exact ⟨⟨depth, needsOperand⟩, rfl, stops depth⟩

/-- One token is read in front of other tokens. -/
theorem cons
    {token : Token}
    {behind : List Token}
    (passes : ∀ depth, ∃ depth',
      Place.next registry ⟨depth, needsOperand⟩ token =
      some ⟨depth', needsOperand'⟩)
    (prepends : ∀ used, good used -> good' (token :: used))
    (result : ∀ more, read' (token :: (behind ++ more)) = read (behind ++ more))
    (reads : Reads registry needsOperand' good ends read behind) :
    Reads registry needsOperand good' ends read' (token :: behind) := by
  cases reads with
  | succeeds e used rest split isGood atEnd succeeded =>
    apply succeeds e (token :: used) rest
    · rw [split, List.cons_append]
    · exact prepends used isGood
    · exact atEnd
    · intro more
      rw [List.cons_append, result, succeeded]
  | fails before behind' last fault split breaksOff failed =>
    apply fails (token :: before) behind' last fault
    · rw [split, List.cons_append]
    · intro depth
      obtain ⟨depth', next⟩ := passes depth
      obtain ⟨place, reached, stops⟩ := breaksOff depth'
      refine ⟨place, ?_, stops⟩
      rw [Place.behind_cons, next]
      exact reached
    · intro more
      rw [List.cons_append, result, failed]
  | refuses last member tooLong refused =>
    apply refuses last (List.mem_cons_of_mem token member) tooLong
    intro more
    rw [List.cons_append, result, refused]

/-- What is read is put into a larger tree. -/
theorem map
    (f : Expr -> Expr)
    {tokens : List Token}
    (result : ∀ more, read' (tokens ++ more) =
      (read (tokens ++ more) >>= fun found => .ok (f found.1, found.2)))
    (reads : Reads registry needsOperand good ends read tokens) :
    Reads registry needsOperand good ends read' tokens := by
  cases reads with
  | succeeds e used rest split isGood atEnd succeeded =>
    apply succeeds (f e) used rest split isGood atEnd
    intro more
    rw [result, succeeded]
    rfl
  | fails before behind token fault split breaksOff failed =>
    apply fails before behind token fault split breaksOff
    intro more
    rw [result, failed]
    rfl
  | refuses token member tooLong refused =>
    apply refuses token member tooLong
    intro more
    rw [result, refused]
    rfl

/-- Two parts of the parser one after the other. -/
theorem bind
    (second : Expr -> List Token -> Result (Expr × List Token))
    {tokens : List Token}
    (reads : Reads registry needsOperand good ends read tokens)
    (passes : ∀ used, good used -> ∀ depth,
      Place.behind registry ⟨depth, needsOperand⟩ used = some ⟨depth, false⟩)
    (later : ∀ e used rest, tokens = used ++ rest -> good used ->
      Reads registry false good' ends' (second e) rest)
    (joins : ∀ used used', good used -> good' used' -> good'' (used ++ used'))
    (result : ∀ more, read' (tokens ++ more) =
      (read (tokens ++ more) >>= fun found => second found.1 found.2)) :
    Reads registry needsOperand good'' ends' read' tokens := by
  cases reads with
  | succeeds e used rest split isGood atEnd succeeded =>
    cases later e used rest split isGood with
    | succeeds e' used' rest' split' isGood' atEnd' succeeded' =>
      apply succeeds e' (used ++ used') rest'
      · rw [split, split', List.append_assoc]
      · exact joins used used' isGood isGood'
      · exact atEnd'
      · intro more
        rw [result, succeeded]
        exact succeeded' more
    | fails before behind token fault split' breaksOff failed =>
      apply fails (used ++ before) behind token fault
      · rw [split, split', List.append_assoc]
      · intro depth
        obtain ⟨place, reached, stops⟩ := breaksOff depth
        refine ⟨place, ?_, stops⟩
        rw [Place.behind_append, passes used isGood depth]
        exact reached
      · intro more
        rw [result, succeeded]
        exact failed more
    | refuses token member tooLong refused =>
      apply refuses token
      · rw [split]
        exact List.mem_append_right used member
      · exact tooLong
      · intro more
        rw [result, succeeded]
        exact refused more
  | fails before behind token fault split breaksOff failed =>
    apply fails before behind token fault split breaksOff
    intro more
    rw [result, failed]
    rfl
  | refuses token member tooLong refused =>
    apply refuses token member tooLong
    intro more
    rw [result, refused]
    rfl

end Reads

/-! ## The parts of the parser -/

/-- The parts of the parser follow the grammar on up to `bound` tokens. -/
structure FollowsUpTo (registry : Registry) (bound : Nat) : Prop where
  expression : ∀ minimum tokens, tokens.length ≤ bound -> HasEnd tokens ->
    Reads registry true (Derives registry .expression) (EndsAt registry minimum)
      (plainExpression registry minimum) tokens
  operators : ∀ minimum left tokens, tokens.length ≤ bound -> HasEnd tokens ->
    Reads registry false (DerivesTail registry) (EndsAt registry minimum)
      (plainOperators registry minimum left) tokens
  unary : ∀ tokens, tokens.length ≤ bound -> HasEnd tokens ->
    Reads registry true (Derives registry .expression) (fun _ => True)
      (plainUnary registry) tokens
  powers : ∀ operand tokens, tokens.length ≤ bound -> HasEnd tokens ->
    Reads registry false (DerivesTail registry) (fun _ => True)
      (plainPowers registry operand) tokens

/-- An integer literal is read or refused. -/
theorem integerLiteral_cases
    (text : String)
    (position : Nat) :
    integerLiteral text = .ok (Decimal.valueOf text.toList) ∨
      IsTooLong ⟨.integer, text, position⟩ ∧
        integerLiteral text = .error (.literalTooLong text.length) := by
  unfold integerLiteral
  by_cases tooLong : Number.digitLimit < text.length
  · right
    exact ⟨⟨rfl, tooLong⟩, if_pos tooLong⟩
  · left
    exact if_neg tooLong

namespace FollowsUpTo

variable {bound : Nat}

/-- An operator, its right operand and what follows them, as both loops of the
parser read them. -/
theorem rightOperand
    (follows : FollowsUpTo registry bound)
    {operator : Token}
    (binary : IsBinary registry operator)
    {behind : List Token}
    (short : behind.length ≤ bound)
    (hasEnd : HasEnd behind)
    (minimum : Nat)
    {ends : List Token -> Prop}
    (second : Expr -> List Token -> Result (Expr × List Token))
    (later : ∀ e rest, rest.length ≤ bound -> HasEnd rest ->
      Reads registry false (DerivesTail registry) ends (second e) rest)
    {read : List Token -> Result (Expr × List Token)}
    (result : ∀ more, read (operator :: (behind ++ more)) =
      (plainExpression registry minimum (behind ++ more) >>=
        fun found => second found.1 found.2)) :
    Reads registry false (DerivesTail registry) ends read
      (operator :: behind) := by
  have both : Reads registry true (Derives registry .expression) ends
      (fun tokens => plainExpression registry minimum tokens >>=
        fun found => second found.1 found.2) behind := by
    apply (follows.expression minimum behind short hasEnd).bind second
    · intro used expression
      exact expression.behind_eq
    · intro e used rest split expression
      rw [split] at short hasEnd
      rw [List.length_append] at short
      exact later e rest (by omega) (hasEnd.of_append fun _ =>
        expression.kind_ne_endOfInput)
    · intro used used' expression tail
      exact tail used expression
    · intro more
      rfl
  apply both.cons
  · intro depth
    exact ⟨depth, by simp [Place.next, binary.1, binary.2]⟩
  · intro used expression tokens left
    exact left.append binary expression
  · exact result

/-- The loop over operators. -/
theorem operators_succ
    (follows : FollowsUpTo registry bound)
    (minimum : Nat)
    (left : Expr)
    {tokens : List Token}
    (short : tokens.length ≤ bound + 1)
    (hasEnd : HasEnd tokens) :
    Reads registry false (DerivesTail registry) (EndsAt registry minimum)
      (plainOperators registry minimum left) tokens := by
  obtain ⟨⟨kind, symbol, position⟩, behind, rfl⟩ := hasEnd.exists_cons
  by_cases isOperator : kind = .operator
  · subst isOperator
    cases found : registry.bySymbol? symbol with
    | none =>
      apply Reads.stuck (.unknownOperator symbol)
      · intro depth
        simp [Place.next, found]
      · intro more
        rw [plainOperators_operator, found]
    | some operation =>
      by_cases below : operation.precedence.level < minimum
      · have ends : ∀ more, EndsAt registry minimum
            (⟨.operator, symbol, position⟩ :: more) := by
          intro more symbol' position' behind' isFirst
          cases isFirst
          exact ⟨operation, found, below⟩
        apply Reads.nothing left .nil (ends behind)
        intro more
        exact (ends (behind ++ more)).plainOperators left
      · apply follows.rightOperand ⟨rfl, by rw [found]; rfl⟩
          (Nat.le_of_succ_le_succ short)
          (hasEnd.tail (by simp)) (rightMinimum operation)
          (fun right rest =>
            plainOperators registry minimum (.node operation left right) rest)
        · intro right rest
          exact follows.operators minimum (.node operation left right) rest
        · intro more
          rw [plainOperators_operator, found]
          simp only [below, if_false]
  · have noOperator : ∀ (more : List Token) (token : Token) (rest : List Token),
        ⟨kind, symbol, position⟩ :: more = token :: rest ->
          token.kind ≠ .operator := by
      intro more token rest isFirst
      cases isFirst
      exact isOperator
    apply Reads.nothing left .nil
    · intro symbol' position' behind' isFirst
      exact absurd rfl (noOperator _ _ _ isFirst)
    · intro more
      exact plainOperators_other registry minimum left
        (noOperator (behind ++ more))

/-- The loop over powers behind a minus sign. -/
theorem powers_succ
    (follows : FollowsUpTo registry bound)
    (operand : Expr)
    {tokens : List Token}
    (short : tokens.length ≤ bound + 1)
    (hasEnd : HasEnd tokens) :
    Reads registry false (DerivesTail registry) (fun _ => True)
      (plainPowers registry operand) tokens := by
  obtain ⟨⟨kind, symbol, position⟩, behind, rfl⟩ := hasEnd.exists_cons
  by_cases isOperator : kind = .operator
  · subst isOperator
    cases isExponential : registry.exponential with
    | none =>
      apply Reads.nothing operand .nil trivial
      intro more
      rw [List.cons_append, plainPowers_operator, isExponential]
    | some exponential =>
      by_cases isPower : symbol = exponential.symbol
      · have member := List.mem_of_find?_eq_some isExponential
        have binary : IsBinary registry ⟨.operator, symbol, position⟩ := by
          refine ⟨rfl, ?_⟩
          apply List.find?_isSome.2
          exact ⟨exponential, member, by simp [isPower]⟩
        apply follows.rightOperand binary (Nat.le_of_succ_le_succ short)
          (hasEnd.tail (by simp)) exponential.precedence.level
          (fun exponent rest =>
            plainPowers registry (.node exponential operand exponent) rest)
        · intro exponent rest
          exact follows.powers (.node exponential operand exponent) rest
        · intro more
          rw [plainPowers_operator, isExponential]
          simp only [isPower, if_true]
      · apply Reads.nothing operand .nil trivial
        intro more
        rw [List.cons_append, plainPowers_operator, isExponential]
        simp only [isPower, if_false]
  · apply Reads.nothing operand .nil trivial
    intro more
    apply plainPowers_other
    intro token rest isFirst
    cases isFirst
    exact isOperator

/-- An expression in parentheses. -/
theorem primary_opening
    (follows : FollowsUpTo registry bound)
    {text : String}
    {position : Nat}
    {behind : List Token}
    (short : behind.length ≤ bound)
    (hasEnd : HasEnd behind) :
    Reads registry true (Derives registry .expression)
      (fun _ => True) (plainPrimary registry)
      (⟨.opening, text, position⟩ :: behind) := by
  cases follows.expression 0 behind short hasEnd with
  | succeeds e used rest split expression ends succeeded =>
    rw [split] at hasEnd
    obtain ⟨⟨kind, text', position'⟩, after, rfl⟩ :=
      (hasEnd.of_append fun _ => expression.kind_ne_endOfInput).exists_cons
    have passed : ∀ depth, Place.behind registry ⟨depth, true⟩
        (⟨.opening, text, position⟩ :: used) = some ⟨depth + 1, false⟩ := by
      intro depth
      simp [Place.next, expression.behind_eq]
    by_cases closes : kind = .closing
    · subst closes
      apply Reads.succeeds e
        (⟨.opening, text, position⟩ :: (used ++ [⟨.closing, text', position'⟩]))
        after
      · simp [split]
      · exact .single (.parentheses rfl rfl expression)
      · trivial
      · intro more
        rw [List.cons_append, plainPrimary_opening, succeeded]
        rfl
    · -- No operator follows, or the expression would not have ended here.
      have noOperator : kind ≠ .operator := by
        intro isOperator
        subst isOperator
        obtain ⟨operation, -, below⟩ := ends text' position' after rfl
        omega
      apply Reads.fails (⟨.opening, text, position⟩ :: used) after
        ⟨kind, text', position'⟩
        (.expectedClosing (front (⟨kind, text', position'⟩ :: after)).2)
      · rw [split, List.cons_append]
      · intro depth
        refine ⟨⟨depth + 1, false⟩, passed depth, ?_⟩
        cases kind <;> first | rfl | contradiction
      · intro more
        rw [List.cons_append, plainPrimary_opening, succeeded]
        cases kind <;> first | rfl | contradiction
  | fails before behind' token fault split breaksOff failed =>
    apply Reads.fails (⟨.opening, text, position⟩ :: before) behind' token fault
    · rw [split, List.cons_append]
    · intro depth
      obtain ⟨place, reached, stops⟩ := breaksOff (depth + 1)
      exact ⟨place, by simpa [Place.next] using reached, stops⟩
    · intro more
      rw [List.cons_append, plainPrimary_opening, failed]
      rfl
  | refuses token member tooLong refused =>
    apply Reads.refuses token (List.mem_cons_of_mem _ member) tooLong
    intro more
    rw [List.cons_append, plainPrimary_opening, refused]
    rfl

/-- No operand starts here. -/
theorem primary_stuck
    {token : Token}
    (noOperand : startsOperand token = false)
    (stops : ∀ depth, Place.next registry ⟨depth, true⟩ token = none)
    (behind : List Token) :
    Reads registry true (Derives registry .expression)
      (fun _ => True) (plainPrimary registry) (token :: behind) := by
  have result : ∀ more, plainPrimary registry (token :: more) =
      .error (expected .expectedOperand (token :: more)) := by
    intro more
    apply plainPrimary_other
    intro first rest isFirst
    cases isFirst
    exact noOperand
  obtain ⟨kind, text, position⟩ := token
  apply Reads.stuck
    (.expectedOperand (front (⟨kind, text, position⟩ :: behind)).2) stops
  intro more
  rw [result]
  cases kind <;> rfl

/-- An operand without minus signs. -/
theorem primary_succ
    (follows : FollowsUpTo registry bound)
    {tokens : List Token}
    (short : tokens.length ≤ bound + 1)
    (hasEnd : HasEnd tokens)
    (noMinus : ∀ position rest, tokens ≠ ⟨.operator, "-", position⟩ :: rest) :
    Reads registry true (Derives registry .expression) (fun _ => True)
      (plainPrimary registry) tokens := by
  obtain ⟨⟨kind, text, position⟩, behind, rfl⟩ := hasEnd.exists_cons
  cases kind with
  | integer =>
    rcases integerLiteral_cases text position with literal | ⟨tooLong, refused⟩
    · apply Reads.one (.int (Decimal.valueOf text.toList))
        (.single (.number (.inl rfl))) trivial
      intro more
      rw [plainPrimary_integer, literal, Result.ok_bind]
    · apply Reads.refuses _ List.mem_cons_self tooLong
      intro more
      rw [List.cons_append, plainPrimary_integer, refused, Result.error_bind]
  | real =>
    apply Reads.one (.const (.real (realLiteral text)))
      (.single (.number (.inr rfl))) trivial
    intro more
    exact plainPrimary_real registry text position (behind ++ more)
  | identifier =>
    apply Reads.one (.var text) (.single (.identifier rfl)) trivial
    intro more
    exact plainPrimary_identifier registry text position (behind ++ more)
  | opening =>
    exact follows.primary_opening (Nat.le_of_succ_le_succ short)
      (hasEnd.tail (by simp))
  | operator =>
    have notMinus : text ≠ "-" := by
      intro isMinus
      subst isMinus
      exact noMinus position behind rfl
    exact primary_stuck rfl (by simp [Place.next, notMinus]) behind
  | closing => exact primary_stuck rfl (fun _ => rfl) behind
  | endOfInput => exact primary_stuck rfl (fun _ => rfl) behind

/-- A minus sign in front of an operand that is no numeral.  The powers behind
the operand are read before the operand is negated. -/
theorem unary_minus
    (follows : FollowsUpTo registry bound)
    {multiplicative : Operation}
    (isMultiplicative : registry.multiplicative = some multiplicative)
    {position : Nat}
    {behind : List Token}
    (short : behind.length ≤ bound)
    (hasEnd : HasEnd behind)
    (noNumeral : ∀ more token rest, behind ++ more = token :: rest ->
      token.kind ≠ .integer ∧ token.kind ≠ .real) :
    Reads registry true (Derives registry .expression)
      (fun _ => True) (plainUnary registry)
      (⟨.operator, "-", position⟩ :: behind) := by
  have both : Reads registry true (Derives registry .expression) (fun _ => True)
      (fun tokens => plainUnary registry tokens >>=
        fun found => plainPowers registry found.1 found.2) behind := by
    apply (follows.unary behind short hasEnd).bind (plainPowers registry)
    · intro used expression
      exact expression.behind_eq
    · intro operand used rest split expression
      rw [split] at short hasEnd
      rw [List.length_append] at short
      exact follows.powers operand rest (by omega)
        (hasEnd.of_append fun _ => expression.kind_ne_endOfInput)
    · intro used used' expression tail
      exact tail used expression
    · intro more
      rfl
  have negated : Reads registry true (Derives registry .expression)
      (fun _ => True) (fun tokens => (plainUnary registry tokens >>=
        fun found => plainPowers registry found.1 found.2) >>=
          fun found => .ok (.node multiplicative (.int (-1)) found.1, found.2))
            behind :=
    both.map (.node multiplicative (.int (-1))) fun _ => rfl
  apply negated.cons
  · intro depth
    exact ⟨depth, rfl⟩
  · intro used expression
    exact expression.negated position
  · intro more
    rw [plainUnary_minus registry isMultiplicative position (noNumeral more)]
    cases plainUnary registry (behind ++ more) <;> rfl

/-- An operand behind minus signs, with the powers that belong to it. -/
theorem unary_succ
    (follows : FollowsUpTo registry bound)
    {multiplicative : Operation}
    (isMultiplicative : registry.multiplicative = some multiplicative)
    {tokens : List Token}
    (short : tokens.length ≤ bound + 1)
    (hasEnd : HasEnd tokens) :
    Reads registry true (Derives registry .expression) (fun _ => True)
      (plainUnary registry) tokens := by
  by_cases isMinus :
    ∃ position behind, tokens = ⟨.operator, "-", position⟩ :: behind
  · obtain ⟨position, behind, rfl⟩ := isMinus
    have hasEndBehind := hasEnd.tail (by simp)
    obtain ⟨⟨kind, text, position'⟩, after, rfl⟩ := hasEndBehind.exists_cons
    by_cases isInteger : kind = .integer
    · subst isInteger
      have read := plainUnary_minus_integer registry text position position'
      rcases integerLiteral_cases text position' with
        literal | ⟨tooLong, refused⟩
      · apply Reads.succeeds (.int (-(Decimal.valueOf text.toList : Int)))
          [⟨.operator, "-", position⟩, ⟨.integer, text, position'⟩] after rfl
          (.single (.minus position (.number (.inl rfl)))) trivial
        intro more
        rw [literal] at read
        exact read (after ++ more)
      · apply Reads.refuses _
          (List.mem_cons_of_mem _ List.mem_cons_self) tooLong
        intro more
        rw [refused] at read
        exact read (after ++ more)
    · by_cases isReal : kind = .real
      · subst isReal
        apply Reads.succeeds (.const (.real (-(realLiteral text))))
          [⟨.operator, "-", position⟩, ⟨.real, text, position'⟩] after rfl
          (.single (.minus position (.number (.inr rfl)))) trivial
        intro more
        exact plainUnary_minus_real registry text position position'
          (after ++ more)
      · apply follows.unary_minus isMultiplicative
          (Nat.le_of_succ_le_succ short) hasEndBehind
        intro more token rest isFirst
        cases isFirst
        exact ⟨isInteger, isReal⟩
  · have noMinus :
        ∀ position rest, tokens ≠ ⟨.operator, "-", position⟩ :: rest := by
      intro position rest isFirst
      exact isMinus ⟨position, rest, isFirst⟩
    have result : ∀ more, plainUnary registry (tokens ++ more) =
        plainPrimary registry (tokens ++ more) := by
      intro more
      apply plainUnary_other
      obtain ⟨token, behind, rfl⟩ := hasEnd.exists_cons
      intro position rest isFirst
      obtain ⟨isToken, -⟩ := List.cons_eq_cons.1 isFirst
      exact noMinus position behind (by rw [isToken])
    apply (follows.primary_succ short hasEnd noMinus).map id
    intro more
    rw [result]
    cases plainPrimary registry (tokens ++ more) <;> rfl

/-- An operand followed by operators. -/
theorem expression_succ
    (follows : FollowsUpTo registry bound)
    {multiplicative : Operation}
    (isMultiplicative : registry.multiplicative = some multiplicative)
    (minimum : Nat)
    {tokens : List Token}
    (short : tokens.length ≤ bound + 1)
    (hasEnd : HasEnd tokens) :
    Reads registry true (Derives registry .expression) (EndsAt registry minimum)
      (plainExpression registry minimum) tokens := by
  apply (follows.unary_succ isMultiplicative short hasEnd).bind
    (plainOperators registry minimum)
  · intro used expression
    exact expression.behind_eq
  · intro left used rest split expression
    rw [split] at short hasEnd
    rw [List.length_append] at short
    exact follows.operators_succ minimum left (by omega)
      (hasEnd.of_append fun _ => expression.kind_ne_endOfInput)
  · intro used used' expression tail
    exact tail used expression
  · intro more
    exact plainExpression_eq registry minimum (tokens ++ more)

end FollowsUpTo

/-- The whole parser follows the grammar, if minus signs can be read. -/
theorem followsUpTo
    {multiplicative : Operation}
    (isMultiplicative : registry.multiplicative = some multiplicative)
    (bound : Nat) :
    FollowsUpTo registry bound := by
  induction bound with
  | zero =>
    have noEnd : ∀ tokens : List Token, tokens.length ≤ 0 ->
        ¬HasEnd tokens := by
      intro tokens short hasEnd
      obtain ⟨token, behind, rfl⟩ := hasEnd.exists_cons
      simp at short
    exact {
      expression :=
        fun _ tokens short hasEnd => absurd hasEnd (noEnd tokens short)
      operators :=
        fun _ _ tokens short hasEnd => absurd hasEnd (noEnd tokens short)
      unary := fun tokens short hasEnd => absurd hasEnd (noEnd tokens short)
      powers :=
        fun _ tokens short hasEnd => absurd hasEnd (noEnd tokens short) }
  | succ bound follows =>
    exact {
      expression :=
        fun minimum _ => follows.expression_succ isMultiplicative minimum
      operators := fun minimum left _ => follows.operators_succ minimum left
      unary := fun _ => follows.unary_succ isMultiplicative
      powers := fun operand _ => follows.powers_succ operand }

end Parse
end Symbolic
