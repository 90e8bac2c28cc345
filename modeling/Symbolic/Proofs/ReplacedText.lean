import Symbolic.Expr.Substitution
import Symbolic.Proofs.Acceptance
import Symbolic.Proofs.PrintedPieces
import Symbolic.Proofs.ReplacedVariable

/-!
# Replacing an identifier in a text

Every token of a text that is a given identifier is replaced by other
characters; blanks and all other tokens stay as they are.  In a text that the
parser accepts, numerals and identifiers stand in front of blanks, operators,
closing parentheses or the end, so that a numeral in the place of an identifier
is a token of its own.
-/

namespace Symbolic
namespace Token

/-- Replace every token that is the identifier.  Characters that start no token
are kept, with everything behind them. -/
def replaceFrom (name replacement : List Char) (cs : List Char) : List Char :=
  match cs with
  | [] => []
  | c :: rest =>
    if Text.isBlank c then c :: replaceFrom name replacement rest
    else
      match _found : lexeme? c rest with
      | none => c :: rest
      | some lexeme =>
        (if lexeme.kind = .identifier ∧
          lexeme.characters = name then replacement
          else lexeme.characters) ++ replaceFrom name replacement lexeme.rest
termination_by cs.length
decreasing_by
  · exact Nat.lt_succ_self _
  · exact lexeme?_rest_length _found

/-- Replace every token of a text that is the identifier. -/
def replaceIdentifier (name replacement text : String) : String :=
  String.ofList (replaceFrom name.toList replacement.toList text.toList)

/-- The characters in front of which an operand ends in a text that is
accepted. -/
def IsBreak (rest : List Char) : Prop :=
  ∀ c tail, rest = c :: tail -> Text.isBlank c = true ∨
    isOperator c = true ∨ c = ')'

theorem IsBreak.numeral
    {rest : List Char}
    (isBreak : IsBreak rest) :
    Decimal.Numeral.IsEnd rest := by
  intro c tail isFirst
  rcases isBreak c tail isFirst with blank | operator | rfl
  · obtain ⟨noDigit, -, noPoint, noLower, noUpper, -, -⟩ := isBlank_cases blank
    exact ⟨noDigit, noPoint, noLower, noUpper⟩
  · obtain ⟨-, noDigit, -, -, -, noPoint, noLower, noUpper⟩ :=
      isOperator_cases operator
    exact ⟨noDigit, noPoint, noLower, noUpper⟩
  · decide

theorem IsBreak.identifier
    {rest : List Char}
    (isBreak : IsBreak rest)
    (c : Char)
    (tail : List Char)
    (isFirst : rest = c :: tail) :
    continuesIdentifier c = false := by
  rcases isBreak c tail isFirst with blank | operator | rfl
  · exact (isBlank_cases blank).2.1
  · exact (isOperator_cases operator).2.2.1
  · decide

/-- An integer numeral ends in front of every break. -/
theorem numeral?_before_break
    {cs characters rest : List Char}
    (found : numeral? cs = some ⟨.integer, characters, rest⟩)
    {rest' : List Char}
    (isBreak : IsBreak rest') :
    numeral? (characters ++ rest') = some ⟨.integer, characters, rest'⟩ := by
  generalize isLexeme :
    (⟨.integer, characters, rest⟩ : Lexeme) = lexeme at found
  cases numeral?_eq_some_iff.1 found with
  | pointed => cases isLexeme
  | @unpointed whole after exponent _ isWhole noPoint isExponent hasDigits =>
    cases exponent with
    | cons mark exponent => cases isLexeme
    | nil =>
      simp only [List.isEmpty_nil, if_true, List.append_nil, Lexeme.mk.injEq,
        true_and] at isLexeme
      obtain ⟨rfl, -⟩ := isLexeme
      have wellFormed : Decimal.Numeral.IsWellFormed ⟨characters, none, none⟩ :=
        ⟨isDigit_of_spanDigits isWhole, by simpa using hasDigits, by simp,
          by simp⟩
      simpa [Decimal.Numeral.characters, Decimal.Numeral.pointed,
        Decimal.Numeral.marked,
        Decimal.Numeral.isReal]
          using wellFormed.numeral?_characters isBreak.numeral

/-- How the first character of a lexeme finds it again in another text: a
numeral or an identifier in front of every break, and a single character in
front of everything. -/
inductive FoundBy (c : Char) : TokenKind -> List Char -> Prop where
  | word
      {kind : TokenKind}
      {tail : List Char}
      (isWord : kind = .integer ∨ kind = .identifier)
      (again : ∀ rest, IsBreak rest ->
        lexeme? c (tail ++ rest) = some ⟨kind, c :: tail, rest⟩) :
      FoundBy c kind (c :: tail)
  | single
      {kind : TokenKind}
      (isMark : kind = .opening ∨ kind = .closing ∧ c = ')' ∨
        kind = .operator ∧ isOperator c = true)
      (again : ∀ rest, lexeme? c rest = some (single kind c rest)) :
      FoundBy c kind [c]

theorem foundBy_of_numeral?
    {c : Char}
    {cs : List Char}
    {lexeme : Lexeme}
    (found : numeral? (c :: cs) = some lexeme)
    (noReal : lexeme.kind ≠ .real) :
    FoundBy c lexeme.kind lexeme.characters := by
  obtain ⟨whole, notEmpty⟩ := numeral?_append found
  have isInteger : lexeme.kind = .integer := by
    cases numeral?_eq_some_iff.1 found with
    | pointed => exact absurd rfl noReal
    | unpointed =>
      dsimp only at noReal ⊢
      split
      · rfl
      · next isReal => simp [isReal] at noReal
  obtain ⟨kind, characters, rest⟩ := lexeme
  obtain ⟨first, tail, rfl⟩ := List.exists_cons_of_ne_nil notEmpty
  obtain ⟨rfl, -⟩ := List.cons_eq_cons.1 whole
  obtain rfl : kind = .integer := isInteger
  refine .word (.inl rfl) fun rest' isBreak => ?_
  rw [lexeme?, ← List.cons_append, numeral?_before_break found isBreak,
    Option.some_or]

theorem foundBy_of_word?
    {c : Char}
    {cs : List Char}
    {lexeme : Lexeme}
    (nothing : numeral? (c :: cs) = none)
    (found : word? c cs = some lexeme) :
    FoundBy c lexeme.kind lexeme.characters := by
  have noPoint : c ≠ '.' := by
    rintro rfl
    exact absurd found (by simp [word?_point])
  have noNumeral :=
    numeral?_eq_none (noDigit_of_numeral?_eq_none nothing) noPoint
  by_cases starts : startsIdentifier c = true
  · rw [word?, if_pos starts] at found
    cases found
    refine .word (.inr rfl) fun rest isBreak => ?_
    rw [lexeme?, noNumeral, Option.none_or]
    exact word?_identifier starts
      (fun d member => List.mem_takeWhile_imp member) isBreak.identifier
  · unfold word? at found
    rw [if_neg starts] at found
    split at found
    · next opens =>
      cases found
      refine .single (.inl rfl) fun rest => ?_
      rw [lexeme?, noNumeral, Option.none_or, word?, if_neg starts,
        if_pos opens]
      rfl
    · next noOpening =>
      split at found
      · next closes =>
        cases found
        refine .single (.inr (.inl ⟨rfl, by simpa using closes⟩)) fun rest => ?_
        rw [lexeme?, noNumeral, Option.none_or, word?, if_neg starts,
          if_neg noOpening,
          if_pos closes]
        rfl
      · next noClosing =>
        split at found
        · next operator =>
          cases found
          refine .single (.inr (.inr ⟨rfl, operator⟩)) fun rest => ?_
          rw [lexeme?, noNumeral, Option.none_or, word?, if_neg starts,
            if_neg noOpening,
            if_neg noClosing, if_pos operator]
          rfl
        · cases found

theorem foundBy_of_lexeme?
    {c : Char}
    {cs : List Char}
    {lexeme : Lexeme}
    (found : lexeme? c cs = some lexeme)
    (noReal : lexeme.kind ≠ .real) :
    FoundBy c lexeme.kind lexeme.characters := by
  rcases Option.or_eq_some_iff.1 found with isNumeral | ⟨nothing, isWord⟩
  · exact foundBy_of_numeral? isNumeral noReal
  · exact foundBy_of_word? nothing isWord

/-- The numeral of a number in front of a break. -/
theorem foundBy_digits (n : Nat) :
    ∃ c, FoundBy c .integer (Decimal.digits n) ∧ Text.isBlank c = false := by
  have wellFormed := Decimal.isWellFormed_digits n
  obtain ⟨c, tail, isDigits⟩ :=
    List.exists_cons_of_ne_nil (Decimal.digits_ne_nil n)
  have digit : Text.isDigit c = true :=
    Decimal.isDigit_of_mem_digits n c
      (by rw [isDigits]; exact List.mem_cons_self)
  rw [isDigits]
  refine ⟨c, .word (.inl rfl) fun rest isBreak => ?_,
    Text.isBlank_of_isDigit digit⟩
  have found := wellFormed.numeral?_characters isBreak.numeral
  simp only [Decimal.Numeral.characters, Decimal.Numeral.pointed,
    Decimal.Numeral.marked,
    Decimal.Numeral.isReal, Option.map_none, Option.getD_none, List.append_nil,
      isDigits,
    Option.isSome_none, Bool.or_self, Bool.false_eq_true, if_false] at found
  rw [lexeme?, ← List.cons_append, found, Option.some_or]

/-- The token that is found by its first character, in front of what follows
it. -/
theorem FoundBy.scanFrom_eq
    {c : Char}
    {kind : TokenKind}
    {characters rest : List Char}
    (found : FoundBy c kind characters)
    (noBlank : Text.isBlank c = false)
    (isBreak : kind = .integer ∨ kind = .identifier -> IsBreak rest)
    (position : Nat)
    {later : List Token}
    (scanned : scanFrom (position + characters.length) rest = .ok later) :
    scanFrom position (characters ++ rest) =
      .ok (⟨kind, String.ofList characters, position⟩ :: later) := by
  cases found with
  | word isWord again =>
    rw [List.cons_append,
      scanFrom_of_lexeme? position noBlank (again rest (isBreak isWord)),
      scanned]
    rfl
  | single isMark again =>
    rw [List.singleton_append,
      scanFrom_of_lexeme? position noBlank (again rest)]
    change (scanFrom (position + [c].length) rest >>= _) = _
    rw [scanned]
    rfl

/-- Behind an operand stands an operator or a closing parenthesis. -/
theorem FoundBy.isBreak
    {c : Char}
    {kind : TokenKind}
    {characters : List Char}
    (found : FoundBy c kind characters)
    (isMark : kind = .operator ∨ kind = .closing)
    (rest : List Char) :
    IsBreak (characters ++ rest) := by
  intro first tail isFirst
  cases found with
  | word isWord again =>
    rcases isMark with rfl | rfl <;> rcases isWord with isWord | isWord <;>
      cases isWord
  | single kinds again =>
    cases isFirst
    rcases kinds with rfl | ⟨rfl, rfl⟩ | ⟨rfl, operator⟩
    · rcases isMark with isMark | isMark <;> cases isMark
    · exact .inr (.inr rfl)
    · exact .inr (.inl operator)

/-! ## Scanning the replaced text -/

/-- The kinds of tokens that may stand behind an operand. -/
theorem kind_behind_operand
    {registry : Registry}
    {place place' : Parse.Place}
    {token : Token}
    (behindOperand : place.needsOperand = false)
    (passes : place.next registry token = some place') :
    token.kind = .operator ∨ token.kind = .closing ∨
      token.kind = .endOfInput := by
  obtain ⟨depth, needsOperand⟩ := place
  cases behindOperand
  obtain ⟨kind, text, position⟩ := token
  cases kind <;> simp [Parse.Place.next] at passes ⊢

/-- A numeral or an identifier is an operand. -/
theorem behind_word
    {registry : Registry}
    {place place' : Parse.Place}
    {token : Token}
    (isWord : token.kind = .integer ∨ token.kind = .identifier)
    (passes : place.next registry token = some place') :
    place'.needsOperand = false := by
  obtain ⟨depth, needsOperand⟩ := place
  obtain ⟨kind, text, position⟩ := token
  cases needsOperand with
  | true => rcases isWord with rfl | rfl <;> · cases passes; rfl
  | false => rcases isWord with rfl | rfl <;> cases passes

variable {registry : Registry} (name : String) (n : Nat)

/-- The tokens of a text in which operands and operators are where a reader
expects them, with the numeral of a number in the place of an identifier. -/
theorem scanFrom_replaceFrom
    {position : Nat}
    {cs : List Char}
    {tokens : List Token}
    (scanned : scanFrom position cs = .ok tokens)
    (noReals : ∀ token ∈ tokens, token.kind ≠ .real)
    {place place' : Parse.Place}
    (passes : place.behind registry tokens = some place')
    (position' : Nat) :
    (place.needsOperand = false ->
      IsBreak (replaceFrom name.toList (Decimal.digits n) cs)) ∧
      ∃ tokens', scanFrom position'
        (replaceFrom name.toList (Decimal.digits n) cs) = .ok tokens' ∧
        List.Forall₂ (Replaces name n) tokens tokens' := by
  fun_induction scanFrom position cs generalizing tokens place position' with
  | case1 position =>
    cases scanned
    rw [replaceFrom]
    refine ⟨?_, [⟨.endOfInput, "", position'⟩], by rw [scanFrom], ?_⟩
    · intro _ c tail isFirst
      cases isFirst
    · exact .cons (.kept position position' (by simp)) .nil
  | case2 position c cs blank inductive_step =>
    obtain ⟨-, tokens', scanned', replaced⟩ :=
      inductive_step scanned noReals passes (position' + 1)
    rw [replaceFrom, if_pos blank]
    refine ⟨?_, tokens', ?_, replaced⟩
    · intro _ first tail isFirst
      cases isFirst
      exact .inl blank
    · rw [scanFrom, if_pos blank]
      exact scanned'
  | case3 position c cs noBlank nothing => cases scanned
  | case4 position c cs noBlank lexeme found inductive_step =>
    obtain ⟨later, scannedLater, returned⟩ := Result.bind_eq_ok.1 scanned
    cases returned
    obtain ⟨next, passed, passesLater⟩ := Option.bind_eq_some_iff.1
      (passes.symm.trans (Parse.Place.behind_cons registry place _ later)).symm
    obtain ⟨noReal, noReals⟩ := List.forall_mem_cons.1 noReals
    have foundBy : FoundBy c lexeme.kind lexeme.characters :=
      foundBy_of_lexeme? found noReal
    rw [Bool.not_eq_true] at noBlank
    rw [replaceFrom, if_neg (by simp [noBlank])]
    split
    · next nothing => cases found.symm.trans nothing
    · next other isLexeme =>
      cases found.symm.trans isLexeme
      have isBreak (isWord : lexeme.kind = .integer ∨
          lexeme.kind = .identifier) :=
        (inductive_step scannedLater noReals passesLater position').1
          (behind_word isWord passed)
      by_cases isName :
        lexeme.kind = .identifier ∧ lexeme.characters = name.toList
      · rw [if_pos isName]
        obtain ⟨first, foundDigits, firstNoBlank⟩ := foundBy_digits n
        obtain ⟨-, later', scannedLater', replaced⟩ :=
          inductive_step scannedLater noReals passesLater
            (position' + (Decimal.digits n).length)
        refine ⟨fun behindOperand => ?_, _, foundDigits.scanFrom_eq firstNoBlank
          (fun _ => isBreak (.inr isName.1)) position' scannedLater',
            .cons ?_ replaced⟩
        · have kinds := kind_behind_operand behindOperand passed
          simp [isName.1] at kinds
        · rw [isName.1, isName.2, String.ofList_toList]
          exact .numeral position position'
      · rw [if_neg isName]
        obtain ⟨-, later', scannedLater', replaced⟩ :=
          inductive_step scannedLater noReals passesLater
            (position' + lexeme.characters.length)
        refine ⟨fun behindOperand => ?_, _,
          foundBy.scanFrom_eq noBlank isBreak position' scannedLater',
          .cons (.kept _ _ ?_) replaced⟩
        · rcases kind_behind_operand behindOperand passed with
            isMark | isMark | isEnd
          · exact foundBy.isBreak (.inl isMark) _
          · exact foundBy.isBreak (.inr isMark) _
          · exact absurd isEnd (kind_of_lexeme? found)
        · intro isIdentifier isText
          exact isName ⟨isIdentifier, by rw [← isText, String.toList_ofList]⟩

end Token

/-! ## Values -/

/-- Substituting a number for a variable gives a tree with the value where the
variable is that number. -/
theorem Expr.exists_substitute_of_parse
    {registry : Registry}
    {text : String}
    {tree : Expr}
    (parsed : parse registry text = .ok tree)
    (name : String)
    (n : Nat) :
    ∃ e', tree.substitute
      (fun other => if other = name then some (.int n) else none) = .ok e' ∧
      tree.AgreesAt name n e' := by
  refine @Parse.closed_of_parse registry (fun tree => ∃ e',
    tree.substitute (fun other =>
      if other = name then some (.int n) else none) = .ok e' ∧
      tree.AgreesAt name n e') ?_ ?_ ?_ text tree parsed
  · exact fun value => ⟨.const value, rfl, .const value⟩
  · intro other _
    by_cases isName : other = name
    · subst isName
      exact ⟨.int n, by simp [substitute, Argument.operand], .int_var⟩
    · exact ⟨.var other, by simp [substitute, isName], .var isName⟩
  · rintro operation - left right ⟨left', substituted, leftAgrees⟩
      ⟨right', substituted', rightAgrees⟩
    refine ⟨.node operation left' right', ?_,
      leftAgrees.node operation rightAgrees⟩
    rw [substitute, substituted, substituted']
    rfl

/-- Replacing an identifier by a numeral in a text that the standard parser
accepts, and substituting the number for the variable in the parsed tree, give
trees with the same integer value under every assignment of the other variables.
This holds for all numbers whose numeral is not too long, as long as no minus
sign in front of the variable changes its meaning: where an operand starts with
a minus sign, the variable and the sign of a power, the exponent must be odd, or
positive if the number is zero. -/
theorem parse_replaceIdentifier
    {text : String}
    {tree : Expr}
    (parsed : parse .standard text = .ok tree)
    {tokens : List Token}
    (scanned : Token.scan text = .ok tokens)
    (noReals : ∀ token ∈ tokens, token.kind ≠ .real)
    {name : String}
    {n : Nat}
    (short : n < 10 ^ Number.digitLimit)
    (keepsSigns : Parse.KeepsSigns name n tokens) :
    ∃ replaced substituted,
      parse .standard (Token.replaceIdentifier name (Decimal.numeral n) text) =
        .ok replaced ∧
      tree.substitute (fun other =>
        if other = name then some (.int n) else none) =
        .ok substituted ∧
      ∀ assignment : String -> Int,
        replaced.integerValue assignment =
          substituted.integerValue assignment := by
  obtain ⟨substituted, isSubstituted, agrees⟩ :=
    Expr.exists_substitute_of_parse parsed name n
  rw [parse, scanned, Result.ok_bind] at parsed
  have accepts : Parse.Accepts .standard tokens :=
    ⟨⟨text, scanned⟩, tree, parsed⟩
  obtain ⟨-, tokens', scanned', isReplaced⟩ :=
    Token.scanFrom_replaceFrom name n scanned noReals (accepts.behind_eq rfl) 0
  obtain ⟨replaced, parsed', agrees'⟩ :=
    Parse.exists_tokens_of_replaced (Decimal.integerLiteral_numeral short)
      keepsSigns parsed isReplaced
  refine ⟨replaced, substituted, ?_, isSubstituted, fun assignment => ?_⟩
  · rw [parse, Token.scan, Token.replaceIdentifier, Decimal.numeral,
      String.toList_ofList,
      String.toList_ofList, scanned', Result.ok_bind, parsed']
  · rw [agrees' assignment, agrees assignment]

/-- A negated cube, and a square that is subtracted. -/
theorem parse_replaceIdentifier_negatedCube :
    ∃ replaced substituted,
      parse .standard (Token.replaceIdentifier "x" (Decimal.numeral 12)
        "-x^3-x^2") =
        .ok replaced ∧
      (Expr.node .difference
          (.node .product (.int (-1)) (.node .power (.var "x") (.int 3)))
          (.node .power (.var "x") (.int 2))).substitute
        (fun other => if other = "x" then some (.int (12 : Nat)) else none) =
          .ok substituted ∧
      ∀ assignment : String -> Int,
        replaced.integerValue assignment =
          substituted.integerValue assignment := by
  have scanned :
      Token.scan "-x^3-x^2" = .ok [⟨.operator, "-", 0⟩, ⟨.identifier, "x", 1⟩,
      ⟨.operator, "^", 2⟩, ⟨.integer, "3", 3⟩, ⟨.operator, "-", 4⟩,
        ⟨.identifier, "x", 5⟩,
      ⟨.operator, "^", 6⟩, ⟨.integer, "2", 7⟩, ⟨.endOfInput, "", 8⟩] := by cbv
  have exponent :
      Parse.plainExpression .standard Operation.power.precedence.level
      [⟨.integer, "3", 3⟩, ⟨.operator, "-", 4⟩, ⟨.identifier, "x", 5⟩,
        ⟨.operator, "^", 6⟩, ⟨.integer, "2", 7⟩, ⟨.endOfInput, "", 8⟩] =
      .ok (.int 3, [⟨.operator, "-", 4⟩, ⟨.identifier, "x", 5⟩,
        ⟨.operator, "^", 6⟩,
        ⟨.integer, "2", 7⟩, ⟨.endOfInput, "", 8⟩]) := by cbv
  refine parse_replaceIdentifier (by cbv) scanned (by decide)
    (by decide +kernel) ?_
  rintro position position' position'' behind ⟨before, split, follows⟩ right
    rest read assignment -
  simp [List.cons_eq_append_iff] at split
  rcases split with ⟨-, -, -, -, rfl⟩ | ⟨rfl, -⟩
  · cases exponent.symm.trans read
    exact .inl (by change Odd 3; decide)
  · -- The second minus sign stands behind a numeral.
    simp at follows

/-- A negated square: with a numeral in the place of the variable, the minus
sign belongs to the base. -/
theorem parse_replaceIdentifier_ne_of_negatedSquare :
    ∃ tree replaced substituted,
      parse .standard "-x^2" = .ok tree ∧
      parse .standard (Token.replaceIdentifier "x" (Decimal.numeral 3) "-x^2") =
        .ok replaced ∧
      tree.substitute (fun other => if other = "x" then some (.int (3 : Nat))
        else none) =
        .ok substituted ∧
      ∀ assignment : String -> Int,
        replaced.integerValue assignment = 9 ∧
          substituted.integerValue assignment = -9 := by
  refine ⟨.node .product (.int (-1)) (.node .power (.var "x") (.int 2)),
    .node .power (.int (-3)) (.int 2),
    .node .product (.int (-1)) (.node .power (.int 3) (.int 2)), by
      cbv, by cbv, by cbv, ?_⟩
  intro assignment
  exact ⟨by change (-3 : Int) ^ 2 = 9; decide,
    by change (-1 : Int) * 3 ^ 2 = -9; decide⟩

end Symbolic
