import Symbolic.CommandLine.Session
import Symbolic.Proofs.Acceptance
import Symbolic.Proofs.CompiledValue
import Symbolic.Proofs.MissingValues
import Symbolic.Proofs.OrdinaryFailures
import Symbolic.Proofs.Provenance

/-!
# How the program ends

A session parses, simplifies, prints, compiles and evaluates.  Parsed trees are
plain, so that simplifying them fails only in ordinary ways, what comes out can
be printed unless an integer has too many digits, and it can be compiled and run
unless an integer is too large for a double.  All other errors speak about the
expression and are reported with status one.

What remains are the errors of `Request.Escapes`, which end the program without
a report.
-/

namespace Symbolic

/-! ## The stages of a session -/

/-- What cannot be scanned has a character that starts no token. -/
theorem Token.scanFrom_eq_error
    {position : Nat}
    {cs : List Char}
    {failure : Error}
    (failed : Token.scanFrom position cs = .error failure) :
    ∃ position' c, failure = .notAnExpression position'
      (.unexpectedCharacter c) := by
  fun_induction Token.scanFrom position cs with
  | case1 position => cases failed
  | case2 position c cs blank inductive_step => exact inductive_step failed
  | case3 position c cs noBlank nothing =>
    cases failed
    exact ⟨position, c, rfl⟩
  | case4 position c cs noBlank lexeme found inductive_step =>
    cases scanned :
      Token.scanFrom (position + lexeme.characters.length) lexeme.rest with
    | ok later =>
      rw [scanned] at failed
      cases failed
    | error other =>
      rw [scanned] at failed
      cases failed
      exact inductive_step scanned

/-- A text is no expression, or one of its integer literals is too long. -/
theorem parse_eq_error
    {text : String}
    {failure : Error}
    (failed : parse .standard text = .error failure) :
    (∃ position fault, failure = .notAnExpression position fault) ∨
      ∃ tokens token, Token.scan text = .ok tokens ∧ token ∈ tokens ∧
        Parse.IsTooLong token ∧
        failure = .literalTooLong token.text.length := by
  cases scanned : Token.scan text with
  | error other =>
    rw [parse, scanned] at failed
    cases failed
    obtain ⟨position, c, rfl⟩ := Token.scanFrom_eq_error scanned
    exact .inl ⟨_, _, rfl⟩
  | ok tokens =>
    rw [parse, scanned, Result.ok_bind] at failed
    obtain ⟨init, position, rfl, noEnd⟩ := Token.exists_end_of_scanFrom scanned
    have isVerdict : Parse.Verdict .standard init ⟨.endOfInput, "", position⟩ :=
      Parse.verdict rfl noEnd rfl
    cases isVerdict with
    | accepts e expression result =>
      rw [result []] at failed
      cases failed
    | breaksOff before behind token fault place split reached stops result =>
      rw [result []] at failed
      cases failed
      exact .inl ⟨_, _, rfl⟩
    | refuses token member tooLong result =>
      rw [result []] at failed
      cases failed
      exact .inr ⟨_, token, rfl, member, tooLong, rfl⟩

/-- An ordinary failure is reported, or it quotes an integer with too many
digits. -/
theorem Error.IsOrdinary.describe_cases
    {failure : Error}
    (ordinary : failure.IsOrdinary) :
    failure.settle = failure ∨ failure.describe = .error .tooManyDigits := by
  cases described : failure.describe with
  | ok text => exact .inl (by rw [Error.settle, described])
  | error reason =>
    have settled : failure.settle = reason.error := by
      rw [Error.settle, described]
    right
    rcases ordinary.settle with same | long
    · have written := failure.describe_settle
      rw [same, described] at written
      cases written
    · cases reason with
      | tooManyDigits => rfl
      | unanswered object query => cases settled.symm.trans long

/-- Only its integers can keep a plain tree from being written. -/
theorem Expr.IsPlain.writeText_eq_error
    {e : Expr}
    (plain : e.IsPlain)
    {reason : Unwritable}
    (failed : e.writeText = .error reason) :
    reason = .tooManyDigits := by
  rw [Expr.writeText_eq plain.foreign?_eq_none] at failed
  rcases plain.unwritable?_cases (some .text) with written | long
  · rw [written] at failed
    cases failed
  · rw [long] at failed
    cases failed
    rfl

theorem Expr.IsPlain.unwritable?_eq
    {e : Expr}
    (plain : e.IsPlain)
    (query query' : Option Query) :
    e.unwritable? query = e.unwritable? query' := by
  induction e with
  | node operation left right leftStep rightStep =>
    rw [Expr.unwritable?, Expr.unwritable?, leftStep plain.1, rightStep plain.2]
  | wrap inner => exact plain.elim
  | foreign object => exact plain.elim
  | _ => rfl

/-- What is written as a text is also written as an outline. -/
theorem Expr.IsPlain.writeOutline_eq_error
    {e : Expr}
    (plain : e.IsPlain)
    {indent : Int}
    {reason : Unwritable}
    (failed : e.writeOutline indent = .error reason) :
    e.writeText = .error reason := by
  rw [Expr.writeOutline, plain.unwritable?_eq (some .outline) (some .text)]
    at failed
  rw [Expr.writeText_eq plain.foreign?_eq_none]
  cases long : e.unwritable? (some .text) with
  | none =>
    rw [long] at failed
    cases failed
  | some obstacle =>
    rw [long] at failed
    exact failed

/-- A plain tree is compiled, or one of its integers is too large, or the error
is reported. -/
theorem Compiled.ofExpr_ends
    {e : Expr}
    (plain : e.IsPlain) :
    (Compiled.ofExpr none e).Ends
      (fun failure => failure = .integerTooLarge ∨
        failure.settle = failure ∧ failure.isDiagnostic = true)
      fun compiled => Compiled.ofExpr none e = .ok compiled := by
  rw [Compiled.ofExpr_none plain.foreign?_eq_none]
  cases coded : Code.ofExpr e.variableNames e with
  | ok code => exact rfl
  | error failure =>
    rcases Code.ofExpr_eq_error
      (fun name member => Expr.mem_variableNames.2 member) coded with
      large | ⟨-, rfl⟩ | ⟨object, rfl⟩
    · exact .inl large
    · exact .inr ⟨rfl, rfl⟩
    · exact .inr ⟨rfl, rfl⟩

namespace CommandLine

/-! ## Sessions -/

namespace Session

variable {α β : Type}

/-- What a session returns, whatever was printed before. -/
def outcome (session : Session α) (transcript : Transcript) : Result α :=
  (session.run.run transcript).1

/-- However much was printed before, what the session returns satisfies a
postcondition, and it fails only with expected errors. -/
def Ends (expected : Error -> Prop) (session : Session α) (post : α -> Prop) :
    Prop :=
  ∀ transcript, (session.outcome transcript).Ends expected post

namespace Ends

variable {expected : Error -> Prop}

theorem pure {a : α} {post : α -> Prop} (good : post a) :
    Ends expected (Pure.pure a : Session α) post :=
  fun _ => good

theorem bind
    {session : Session α}
    {next : α -> Session β}
    {middle : α -> Prop}
    {post : β -> Prop}
    (ends : Ends expected session middle)
    (nextEnds : ∀ a, middle a -> Ends expected (next a) post) :
    Ends expected (session >>= next) post := by
  intro transcript
  have ended := ends transcript
  unfold outcome at ended ⊢
  rw [ExceptT.run_bind, StateT.run_bind]
  revert ended
  rcases StateT.run (ExceptT.run session) transcript with ⟨result, transcript'⟩
  intro ended
  cases result with
  | ok a => exact nextEnds a ended transcript'
  | error failure => exact ended

theorem lift
    {result : Result α}
    {post : α -> Prop}
    (ends : result.Ends expected post) :
    Ends expected (liftM result : Session α) post := by
  intro transcript
  cases result with
  | ok a => exact ends
  | error failure => exact ends

theorem note (events : List Event) :
    Ends expected (Session.note events) fun _ => True :=
  fun _ => trivial

theorem print
    {line : Except Unwritable String}
    (fails : ∀ reason, line = .error reason -> expected reason.error) :
    Ends expected (Session.print line) fun _ => True := by
  intro transcript
  cases line with
  | ok text => trivial
  | error reason => exact fails reason rfl

end Ends
end Session

/-! ## Errors that end the program -/

/-- The errors with which the program ends without a report: an option lacks its
value, a literal is too long, an integer that has too many digits would have to
be written, or one that is too large for a double would have to be converted. -/
inductive Request.Escapes (arguments : List String) (request : Request) :
    Error -> Prop where
  | missingLimit
      (lacks : HasEmptyValue arguments) :
      Escapes arguments request .missingLimit
  | missingAssignment
      (place : Nat)
      (lacks : HasEmptyValue arguments) :
      Escapes arguments request (.missingAssignment place)
  | longLiteral
      {tokens : List Token}
      {token : Token}
      (scanned : Token.scan request.expression = .ok tokens)
      (member : token ∈ tokens)
      (tooLong : Parse.IsTooLong token) :
      Escapes arguments request (.literalTooLong token.text.length)
  | longReport
      {limits : Limits}
      {tree : Expr}
      {failure : Error}
      (within : request.limits = .ok (some limits))
      (parsed : parse .standard request.expression = .ok tree)
      (failed : simplified ⟨.standard, limits, true⟩ tree = .error failure)
      (long : failure.describe = .error .tooManyDigits) :
      Escapes arguments request .tooManyDigits
  | longResult
      {limits : Limits}
      {tree result : Expr}
      (within : request.limits = .ok (some limits))
      (parsed : parse .standard request.expression = .ok tree)
      (returned : simplified ⟨.standard, limits, true⟩ tree = .ok result)
      (long : result.writeText = .error .tooManyDigits) :
      Escapes arguments request .tooManyDigits
  | largeInteger
      {limits : Limits}
      {tree result : Expr}
      (asked : request.assignments ≠ [])
      (within : request.limits = .ok (some limits))
      (parsed : parse .standard request.expression = .ok tree)
      (returned : simplified ⟨.standard, limits, true⟩ tree = .ok result)
      (large : Compiled.ofExpr none result = .error .integerTooLarge) :
      Escapes arguments request .integerTooLarge

/-- An error is reported, or it is one of those that end the program without a
report. -/
def Request.ReportsOrEscapes (arguments : List String) (request : Request)
    (failure : Error) :
    Prop :=
  failure.settle.isDiagnostic = true ∨ request.Escapes arguments failure.settle

/-! ## Whole sessions -/

/-- The assignments are taken, unless one of them is missing. -/
theorem Session.present_ends
    (place : Nat)
    (assignments : List (Option (String × Float))) :
    (Session.present place assignments).Ends
      (fun failure => none ∈ assignments ∧ ∃ place',
        failure = .missingAssignment place')
      fun _ => True := by
  induction assignments generalizing place with
  | nil => trivial
  | cons assignment rest inductive_step =>
    cases assignment with
    | none => exact ⟨List.mem_cons_self, place, rfl⟩
    | some assignment =>
      rw [Session.present]
      refine .bind ((inductive_step (place + 1)).mono ?_ fun _ _ => trivial)
        fun _ _ => trivial
      exact fun failure missing => ⟨List.mem_cons_of_mem _ missing.1, missing.2⟩

/-- There is one argument for each variable, unless a variable has no value. -/
theorem Session.arguments_ends
    (assignments : List (String × Float))
    (names : List String) :
    (Session.arguments assignments names).Ends
      (fun failure => ∃ name known, failure = .unknownVariable name known)
      fun values => values.length = names.length := by
  induction names with
  | nil => exact rfl
  | cons name rest inductive_step =>
    rw [Session.arguments]
    cases Session.assigned? assignments name with
    | none => exact ⟨name, _, rfl⟩
    | some x =>
      refine .bind inductive_step fun others length => ?_
      simp [Result.Ends, length]

section Requests

variable {arguments : List String} {request : Request}

theorem parse_ends (arguments : List String) (request : Request) :
    (parse .standard request.expression).Ends
      (request.ReportsOrEscapes arguments)
      fun tree => parse .standard request.expression = .ok tree ∧
        tree.IsPlain := by
  cases parsed : parse .standard request.expression with
  | ok tree => exact ⟨rfl, isPlain_of_parse parsed⟩
  | error failure =>
    rcases parse_eq_error parsed with
      ⟨position, fault, rfl⟩ | ⟨tokens, token, scanned, member, tooLong, rfl⟩
    · exact .inl rfl
    · exact .inr (.longLiteral scanned member tooLong)

/-- The limits that a request is served within are its own. -/
theorem simplified_ends
    {limits : Limits}
    (within : request.limits = .ok (some limits))
    {tree : Expr}
    (parsed : parse .standard request.expression = .ok tree)
    (plain : tree.IsPlain) :
    (simplified ⟨.standard, limits, true⟩ tree).Ends
      (request.ReportsOrEscapes arguments)
      fun result => simplified ⟨.standard, limits, true⟩ tree = .ok result ∧
        result.IsPlain := by
  have supported : (Settings.mk .standard limits true).registry.Supports :=
    Registry.supports_standard
  have ends := simplified_endsOrdinarily supported plain
  cases returned : simplified ⟨.standard, limits, true⟩ tree with
  | ok result => exact ⟨rfl, ends.returned returned⟩
  | error failure =>
    have ordinary := ends.failed returned
    rcases ordinary.describe_cases with settled | long
    · refine .inl ?_
      rw [settled]
      cases ordinary <;> rfl
    · refine .inr ?_
      rw [Error.settle, long]
      exact .longReport within parsed returned long

/-- The evaluation of a result ends with a report or escapes. -/
theorem evaluation_ends
    {limits : Limits}
    (lacking : none ∈ request.assignments -> HasEmptyValue arguments)
    (asked : request.assignments ≠ [])
    (within : request.limits = .ok (some limits))
    {tree result : Expr}
    (parsed : parse .standard request.expression = .ok tree)
    (returned : simplified ⟨.standard, limits, true⟩ tree = .ok result)
    (plain : result.IsPlain) :
    Session.Ends (request.ReportsOrEscapes arguments)
      (do
        let assignments ← liftM (Session.present 0 request.assignments)
        let compiled ← liftM (Compiled.ofExpr none result)
        let values ← liftM (Session.arguments assignments compiled.names)
        let value ← liftM (compiled.call values)
        Session.print (.ok (Decimal.doubleText value)))
      fun _ => True := by
  have presents : (Session.present 0 request.assignments).Ends
      (request.ReportsOrEscapes arguments) fun _ => True := by
    refine (Session.present_ends 0 request.assignments).mono ?_
      fun _ _ => trivial
    rintro _ ⟨missing, place, rfl⟩
    exact .inr (.missingAssignment place (lacking missing))
  have compiles :
      (Compiled.ofExpr none result).Ends (request.ReportsOrEscapes arguments)
      fun compiled => Compiled.ofExpr none result = .ok compiled := by
    have ends := Compiled.ofExpr_ends plain
    cases made : Compiled.ofExpr none result with
    | ok compiled => exact rfl
    | error failure =>
      rcases ends.failed made with rfl | ⟨settled, reported⟩
      · exact .inr (.largeInteger asked within parsed returned made)
      · exact .inl (by rw [settled]; exact reported)
  have collects (assignments : List (String × Float)) (names : List String) :
      (Session.arguments assignments names).Ends
        (request.ReportsOrEscapes arguments)
        fun values => values.length = names.length := by
    refine (Session.arguments_ends assignments names).mono ?_
      fun _ length => length
    rintro _ ⟨name, known, rfl⟩
    exact .inl rfl
  refine .bind (.lift presents) fun assignments _ => ?_
  refine .bind (.lift compiles) fun compiled isCompiled => ?_
  refine .bind (.lift (collects _ _)) fun values length => ?_
  obtain ⟨y, called⟩ :=
    Compiled.exists_call_of_ofExpr plain.foreign?_eq_none isCompiled length
  have calls : (compiled.call values).Ends (request.ReportsOrEscapes arguments)
      fun _ => True :=
    .of_eq_ok called trivial
  refine .bind (.lift calls) fun value _ => ?_
  exact .print (by rintro _ ⟨⟩)

/-- A session within the limits of its request ends with a report or escapes. -/
theorem serve_ends
    {limits : Limits}
    (lacking : none ∈ request.assignments -> HasEmptyValue arguments)
    (within : request.limits = .ok (some limits)) :
    (Session.serve request limits).Ends (request.ReportsOrEscapes arguments)
      fun _ => True := by
  unfold Session.serve
  refine .bind (.lift (parse_ends arguments request)) ?_
  rintro tree ⟨parsed, plain⟩
  refine .bind (.note _) fun _ _ => ?_
  dsimp only
  refine .bind (.note _) fun _ _ => ?_
  refine .bind (.lift (simplified_ends within parsed plain)) ?_
  rintro result ⟨returned, resultPlain⟩
  have reportsLong (reason : Unwritable)
      (failed : result.writeText = .error reason) :
      request.ReportsOrEscapes arguments reason.error := by
    obtain rfl := resultPlain.writeText_eq_error failed
    exact .inr (.longResult within parsed returned failed)
  have evaluates (asked : (!request.assignments.isEmpty) = true) :=
    evaluation_ends lacking (by simpa using asked) within parsed returned
      resultPlain
  refine .bind (.print reportsLong) fun _ _ => ?_
  split
  · refine .bind (.print fun reason failed =>
      reportsLong reason (resultPlain.writeOutline_eq_error failed))
        fun _ _ => ?_
    split
    · next asked => exact evaluates asked
    · exact .pure trivial
  · split
    · next asked => exact evaluates asked
    · exact .pure trivial

/-- A request that is served is answered with status zero or one, or an error
escapes. -/
theorem serve_cases
    {limits : Limits}
    (lacking : none ∈ request.assignments -> HasEmptyValue arguments)
    (within : request.limits = .ok (some limits)) :
    (∃ outcome, request.serve limits = .ok outcome ∧ outcome.status ≤ 1) ∨
      ∃ failure, request.serve limits = .error failure ∧
        request.Escapes arguments failure := by
  have ends := serve_ends lacking within ⟨[], ""⟩
  unfold Session.outcome at ends
  unfold Request.serve
  revert ends
  rcases (Session.serve request limits).run.run ⟨[], ""⟩ with
    ⟨result, transcript⟩
  intro ends
  cases result with
  | ok _ => exact .inl ⟨_, rfl, Nat.zero_le 1⟩
  | error failure =>
    dsimp only
    split
    · exact .inl ⟨_, rfl, Nat.le_refl 1⟩
    · next unreported => exact .inr ⟨_, rfl, Or.resolve_left ends unreported⟩

end Requests

/-- The limits of a request are missing only if one of its options lacks its
value. -/
theorem limits_eq_error
    {request : Request}
    {failure : Error}
    (failed : request.limits = .error failure) :
    ¬request.IsComplete ∧ failure = .missingLimit := by
  unfold Request.limits at failed
  split at failed
  · next missing =>
    cases failed
    exact ⟨fun complete => complete.iterations missing, rfl⟩
  · split at failed
    · cases failed
    · split at failed
      · next missing =>
        cases failed
        exact ⟨fun complete => complete.depth missing, rfl⟩
      · cases failed

/-- The program on every list of arguments: it ends with the help text or the
version text, with a report of a misuse, or with status zero or one, unless one
of the errors occurs that end it without a report. -/
theorem run_ends_or_escapes (arguments : List String) :
    (∃ outcome, run arguments = .ok outcome ∧
      (outcome.status ≤ 1 ∨ ∃ cause, outcome = (Stop.misuse cause).outcome)) ∨
    ∃ request failure, readArguments arguments = .ok request ∧
      run arguments = .error failure ∧ request.Escapes arguments failure := by
  cases read : readArguments arguments with
  | error stop =>
    refine .inl ⟨stop.outcome, by rw [run, read], ?_⟩
    cases stop with
    | help => exact .inl (Nat.zero_le 1)
    | version => exact .inl (Nat.zero_le 1)
    | misuse cause => exact .inr ⟨cause, rfl⟩
  | ok request =>
    have lacking (incomplete : ¬request.IsComplete) : HasEmptyValue arguments :=
      (isComplete_or_hasEmptyValue read).resolve_left incomplete
    cases within : request.limits with
    | error failure =>
      obtain ⟨incomplete, rfl⟩ := limits_eq_error within
      refine .inr ⟨request, .missingLimit, rfl, ?_,
        .missingLimit (lacking incomplete)⟩
      rw [run, read]
      simp only [Request.outcome, within, Result.error_bind]
    | ok limits? =>
      cases limits? with
      | none =>
        refine .inl ⟨(Stop.misuse .limitsTooSmall).outcome, ?_, .inr ⟨_, rfl⟩⟩
        rw [run, read]
        simp only [Request.outcome, within, Result.ok_bind]
        rfl
      | some limits =>
        have served : run arguments = request.serve limits := by
          rw [run, read]
          simp only [Request.outcome, within, Result.ok_bind]
        rw [served]
        rcases serve_cases
          (fun missing => lacking fun complete => complete.assignments missing)
          within with ⟨outcome, isOutcome, atMost⟩ | ⟨failure, failed, escapes⟩
        · exact .inl ⟨outcome, isOutcome, .inl atMost⟩
        · exact .inr ⟨request, failure, rfl, failed, escapes⟩

/-- A number with too many digits ends the program without a report. -/
def endsInTooManyDigits : Result Outcome -> Bool
  | .error .tooManyDigits => true
  | _ => false

theorem eq_of_endsInTooManyDigits
    {result : Result Outcome}
    (ends : endsInTooManyDigits result = true) :
    result = .error .tooManyDigits := by
  cases result with
  | ok outcome => cases ends
  | error failure =>
    cases failure with
    | tooManyDigits => rfl
    | _ => cases ends

/-- A power that has more digits than may be written ends the program without a
report. -/
theorem run_escapes_of_longResult :
    run ["10^5000"] = .error .tooManyDigits :=
  eq_of_endsInTooManyDigits (by decide +kernel)

end CommandLine
end Symbolic
