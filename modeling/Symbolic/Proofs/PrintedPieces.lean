import Symbolic.Proofs.DoubleBits
import Symbolic.Proofs.ParserEquations
import Symbolic.Proofs.Reading
import Symbolic.Proofs.Scanning

/-!
# The pieces of printed trees

The infix text of a tree is cut into the pieces that its printer put together:
literals with their minus signs, identifiers, symbols and parentheses.  The
words for infinite and undefined doubles are cut as identifiers; every other
number is read back from its pieces wherever an operand may stand.
-/

namespace Symbolic

/-! ## Numbers -/

namespace Number

/-- A number whose text can be read back: a short enough integer or a finite
double. -/
def IsReadable : Number -> Prop
  | int n => isWritable (int n) = true
  | real x => Decimal.isFinite x = true

/-- The minus sign and the digits of a number, or the word for a double without
digits. -/
def pieces : Number -> List (TokenKind × String)
  | int n =>
    (if n < 0 then [(.operator, "-")] else []) ++
      [(.integer, Decimal.numeral n.natAbs)]
  | real x =>
    if Decimal.isUndefined x then [(.identifier, "nan")]
    else
      (if Decimal.isNegative x then [(.operator, "-")] else []) ++
        [if Decimal.isInfinite x then (.identifier, "inf")
          else (.real, String.ofList
            (Decimal.magnitudeCharacters (Decimal.unsignedBits x)))]

end Number

namespace Decimal

variable {x : Float}

theorem unsignedBits_lt_of_isFinite
    (finite : isFinite x = true) :
    unsignedBits x < infinityBits := by
  simpa [isFinite] using finite

theorem isUndefined_of_isFinite
    (finite : isFinite x = true) :
    isUndefined x = false := by
  have bounded := unsignedBits_lt_of_isFinite finite
  simp only [isUndefined, decide_eq_false_iff_not]
  omega

theorem isInfinite_of_isFinite
    (finite : isFinite x = true) :
    isInfinite x = false := by
  have bounded := unsignedBits_lt_of_isFinite finite
  simp only [isInfinite, beq_eq_false_iff_ne]
  omega

/-- A double that is neither undefined nor infinite is finite. -/
theorem isFinite_of_not
    (defined : isUndefined x = false)
    (notInfinite : isInfinite x = false) :
    isFinite x = true := by
  simp only [isUndefined, decide_eq_false_iff_not] at defined
  simp only [isInfinite, beq_eq_false_iff_ne] at notInfinite
  simp only [isFinite, decide_eq_true_eq]
  omega

end Decimal

namespace Decimal

theorem isWellFormed_digits (n : Nat) :
    Numeral.IsWellFormed ⟨digits n, none, none⟩ where
  whole := isDigit_of_mem_digits n
  notEmpty := digits_ne_nil n
  part := by simp
  exponent := by simp

theorem length_digits_le_of_pos
    {n count : Nat}
    (positive : 0 < count)
    (bounded : n < 10 ^ count) :
    (digits n).length ≤ count := by
  obtain ⟨count, rfl⟩ : ∃ less, count = less + 1 := ⟨count - 1, by omega⟩
  exact length_digits_le bounded

/-- The literal of a natural number that is not too long. -/
theorem integerLiteral_numeral
    {n : Nat}
    (short : n < 10 ^ Number.digitLimit) :
    Parse.integerLiteral (numeral n) = .ok (n : Int) := by
  have length : (numeral n).length ≤ Number.digitLimit := by
    rw [numeral, String.length_ofList]
    exact length_digits_le_of_pos (by decide) short
  rw [Parse.integerLiteral, if_neg (by omega), numeral, String.toList_ofList,
    valueOf_digits]

/-- The literal of a finite double without its sign. -/
theorem realLiteral_magnitudeCharacters
    {bits : Nat}
    (bounded : bits < infinityBits) :
    Parse.realLiteral (String.ofList (magnitudeCharacters bits)) =
      ofSignAndBits false bits := by
  obtain ⟨numeral, wellFormed, -, characters, value⟩ :=
    exists_numeral_of_bits bounded
  rw [Parse.realLiteral, String.toList_ofList, ← characters,
    wellFormed.readFraction?_characters]
  dsimp only
  rw [value]

end Decimal

/-- A minus sign in front of characters is a piece of its own. -/
theorem Token.ScansBefore.minus
    {cs : List Char}
    {pieces : List (TokenKind × String)}
    (scans : ScansBefore IsEnd cs pieces)
    (negative : Bool) :
    ScansBefore IsEnd (if negative then '-' :: cs else cs)
      ((if negative then [(.operator, "-")] else []) ++ pieces) := by
  cases negative with
  | false => exact scans
  | true =>
    exact (scansBefore_operator (by decide)).append scans fun _ _ => trivial

namespace Number

/-- An integer that may be read has fewer digits than the limit. -/
theorem natAbs_lt_of_isReadable
    {n : Int}
    (readable : IsReadable (int n)) :
    n.natAbs < 10 ^ digitLimit := by
  unfold IsReadable isWritable at readable
  generalize digitLimit = limit at readable ⊢
  exact of_decide_eq_true readable

/-- A readable number can be written. -/
theorem IsReadable.isWritable
    {value : Number}
    (readable : value.IsReadable) :
    value.isWritable = true := by
  cases value with
  | int n => exact readable
  | real x => rfl

/-- The text of a number is cut into its pieces. -/
theorem scansBefore_text (value : Number) :
    Token.ScansBefore Token.IsEnd value.text.toList value.pieces := by
  cases value with
  | int n =>
    have scans :=
      (Token.scansBefore_numeral (Decimal.isWellFormed_digits n.natAbs)).minus
      (decide (n < 0))
    have characters : (if decide (n < 0) then '-' :: Decimal.digits n.natAbs
        else Decimal.digits n.natAbs) = (text (int n)).toList := by
      unfold text Decimal.signedNumeral Decimal.numeral
      by_cases negative : n < 0 <;> simp [negative]
    simp only [Decimal.Numeral.characters, Decimal.Numeral.pointed,
      Decimal.Numeral.marked,
      Option.map_none, Option.getD_none, List.append_nil, characters] at scans
    simpa [pieces, Decimal.Numeral.isReal, Decimal.numeral] using scans
  | real x =>
    cases undefined : Decimal.isUndefined x with
    | true =>
      have isWord : Token.IsIdentifier "nan" :=
        ⟨'n', ['a', 'n'], rfl, rfl, List.all_eq_true.1 (by decide)⟩
      have scans := Token.scansBefore_identifier isWord
      simpa [pieces, text, Decimal.doubleText, undefined] using scans
    | false =>
      cases infinite : Decimal.isInfinite x with
      | true =>
        have isWord : Token.IsIdentifier "inf" :=
          ⟨'i', ['n', 'f'], rfl, rfl, List.all_eq_true.1 (by decide)⟩
        have scans :=
          (Token.scansBefore_identifier isWord).minus (Decimal.isNegative x)
        simpa [pieces, text, Decimal.doubleText, undefined, infinite]
          using scans
      | false =>
        have bounded :=
          Decimal.unsignedBits_lt_of_isFinite
            (Decimal.isFinite_of_not undefined infinite)
        obtain ⟨numeral, wellFormed, isReal, characters, -⟩ :=
          Decimal.exists_numeral_of_bits bounded
        have scans :=
          (Token.scansBefore_numeral wellFormed).minus (Decimal.isNegative x)
        rw [characters, isReal] at scans
        simpa [pieces, text, Decimal.doubleText, undefined, infinite]
          using scans

end Number

/-- Tokens that spell one piece after another. -/
theorem exists_of_pieces_cons
    {tokens : List Token}
    {kind : TokenKind}
    {text : String}
    {pieces : List (TokenKind × String)}
    (spelled : tokens.map Token.piece = (kind, text) :: pieces) :
    ∃ position rest, tokens = ⟨kind, text, position⟩ :: rest ∧
      rest.map Token.piece = pieces := by
  obtain ⟨⟨kind', text', position⟩, rest, rfl, isPiece, spelledRest⟩ :=
    List.map_eq_cons_iff.1 spelled
  cases isPiece
  exact ⟨position, rest, rfl, spelledRest⟩

theorem exists_of_pieces_singleton
    {tokens : List Token}
    {kind : TokenKind}
    {text : String}
    (spelled : tokens.map Token.piece = [(kind, text)]) :
    ∃ position, tokens = [⟨kind, text, position⟩] := by
  obtain ⟨position, rest, rfl, nothing⟩ := exists_of_pieces_cons spelled
  obtain rfl := List.map_eq_nil_iff.1 nothing
  exact ⟨position, rfl⟩

/-- A readable number is read back from its pieces, where an operand may
stand. -/
theorem Number.plainUnary_pieces
    (registry : Registry)
    {value : Number}
    (readable : value.IsReadable)
    {tokens : List Token}
    (spelled : tokens.map Token.piece = value.pieces)
    (rest : List Token) :
    Parse.plainUnary registry (tokens ++ rest) = .ok (.const value, rest) := by
  cases value with
  | int n =>
    have literal :=
      Decimal.integerLiteral_numeral (natAbs_lt_of_isReadable readable)
    by_cases negative : n < 0
    · simp only [pieces, negative, if_true, List.singleton_append] at spelled
      obtain ⟨position, behind, rfl, spelledRest⟩ :=
        exists_of_pieces_cons spelled
      obtain ⟨position', rfl⟩ := exists_of_pieces_singleton spelledRest
      have sign : -(n.natAbs : Int) = n := by omega
      rw [List.cons_append, List.singleton_append,
        Parse.plainUnary_minus_integer, literal, Result.ok_bind, sign]
    · simp only [pieces, negative, if_false, List.nil_append] at spelled
      obtain ⟨position, rfl⟩ := exists_of_pieces_singleton spelled
      have sign : (n.natAbs : Int) = n := by omega
      rw [List.singleton_append, Parse.plainUnary_other registry (by simp),
        Parse.plainPrimary_integer, literal, Result.ok_bind, sign]
  | real x =>
    have bounded := Decimal.unsignedBits_lt_of_isFinite readable
    have literal := Decimal.realLiteral_magnitudeCharacters bounded
    have isDouble := Decimal.ofSignAndBits_parts x
    simp only [pieces, Decimal.isUndefined_of_isFinite readable,
      Decimal.isInfinite_of_isFinite readable, Bool.false_eq_true, if_false]
        at spelled
    cases negative : Decimal.isNegative x with
    | true =>
      simp only [negative, if_true, List.singleton_append] at spelled
      obtain ⟨position, behind, rfl, spelledRest⟩ :=
        exists_of_pieces_cons spelled
      obtain ⟨position', rfl⟩ := exists_of_pieces_singleton spelledRest
      rw [negative] at isDouble
      rw [List.cons_append, List.singleton_append, Parse.plainUnary_minus_real,
        literal, Decimal.neg_ofSignAndBits bounded, isDouble]
    | false =>
      simp only [negative, Bool.false_eq_true, if_false, List.nil_append]
        at spelled
      obtain ⟨position, rfl⟩ := exists_of_pieces_singleton spelled
      rw [negative] at isDouble
      rw [List.singleton_append, Parse.plainUnary_other registry (by simp),
        Parse.plainPrimary_real, literal, isDouble]

/-! ## Trees -/

/-- The symbol of an operation is a single operator character. -/
def Operation.HasPlainSymbol (operation : Operation) : Prop :=
  ∃ c, operation.symbol.toList = [c] ∧ Token.isOperator c = true

namespace Expr

/-- The pieces between parentheses. -/
def enclosed (pieces : List (TokenKind × String)) : List (TokenKind × String) :=
  (.opening, "(") :: (pieces ++ [(.closing, ")")])

/-- The pieces of the infix text of a tree. -/
def pieces (parent : Option Operation) (isRight : Bool) : Expr ->
    List (TokenKind × String)
  | const value =>
    if parent.isSome && value.isNegative then enclosed value.pieces
    else value.pieces
  | var name => [(.identifier, name)]
  | node operation left right =>
    let inner := left.pieces (some operation) false ++
      (.operator, operation.symbol) :: right.pieces (some operation) true
    if parent.any fun outer =>
      isEnclosed outer operation isRight then enclosed inner else inner
  | wrap inner => inner.pieces parent isRight
  | _ => []

/-- A tree whose text can be read back: its constants are readable, its
variables are named by identifiers, and it has neither blanks nor foreign
objects. -/
def IsReadable : Expr -> Prop
  | const value => value.IsReadable
  | var name => Token.IsIdentifier name
  | node _ left right => left.IsReadable ∧ right.IsReadable
  | wrap inner => inner.IsReadable
  | _ => False

/-- A tree whose text can be scanned: its constants are of a given kind, its
variables are named by identifiers, and it has neither blanks nor foreign
objects. -/
def IsScannable (numbers : Number -> Prop) : Expr -> Prop
  | const value => numbers value
  | var name => Token.IsIdentifier name
  | node _ left right => left.IsScannable numbers ∧ right.IsScannable numbers
  | wrap inner => inner.IsScannable numbers
  | _ => False

theorem IsReadable.isScannable
    {e : Expr}
    (readable : e.IsReadable) :
    e.IsScannable Number.IsReadable := by
  induction e with
  | node operation left right leftStep rightStep =>
    exact ⟨leftStep readable.1, rightStep readable.2⟩
  | wrap inner inductive_step => exact inductive_step readable
  | _ => exact readable

theorem IsScannable.mono
    {numbers numbers' : Number -> Prop}
    {e : Expr}
    (scannable : e.IsScannable numbers)
    (weaker : ∀ value, numbers value -> numbers' value) :
    e.IsScannable numbers' := by
  induction e with
  | const value => exact weaker value scannable
  | node operation left right leftStep rightStep =>
    exact ⟨leftStep scannable.1, rightStep scannable.2⟩
  | wrap inner inductive_step => exact inductive_step scannable
  | _ => exact scannable

/-- Whether the infix text of a tree stands in parentheses as an operand. -/
def isBracketed (parent : Operation) (isRight : Bool) : Expr -> Bool
  | const value => value.isNegative
  | node operation _ _ => isEnclosed parent operation isRight
  | wrap inner => inner.isBracketed parent isRight
  | _ => false

/-- The pieces of an operand are those of the whole tree, perhaps between
parentheses. -/
theorem pieces_some
    (parent : Operation)
    (isRight : Bool)
    (e : Expr) :
    e.pieces (some parent) isRight =
      if e.isBracketed parent isRight then enclosed (e.pieces none false)
      else e.pieces none false := by
  induction e with
  | wrap inner inductive_step => exact inductive_step
  | foreign object => rfl
  | _ => simp [pieces, isBracketed]

theorem scansBefore_parenthesized
    {text : String}
    {pieces : List (TokenKind × String)}
    (scans : Token.ScansBefore Token.IsEnd text.toList pieces) :
    Token.ScansBefore Token.IsEnd (parenthesized text).toList
      (enclosed pieces) := by
  have closed := scans.append Token.scansBefore_closing fun rest _ => by
    intro c tail isFirst
    right
    exact (List.cons_eq_cons.1 isFirst).1.symm
  have both := Token.scansBefore_opening.append closed fun _ _ => trivial
  have characters :
      (parenthesized text).toList = ['('] ++ (text.toList ++ [')']) := by
    simp [parenthesized]
  rw [characters]
  exact both.mono fun _ _ => trivial

/-- Two texts around the symbol of an operation. -/
theorem scansBefore_operation
    {operation : Operation}
    (plain : operation.HasPlainSymbol)
    {left right : String}
    {leftPieces rightPieces : List (TokenKind × String)}
    (scansLeft : Token.ScansBefore Token.IsEnd left.toList leftPieces)
    (scansRight : Token.ScansBefore Token.IsEnd right.toList rightPieces) :
    Token.ScansBefore Token.IsEnd (left ++ operation.symbol ++ right).toList
      (leftPieces ++ (.operator, operation.symbol) :: rightPieces) := by
  obtain ⟨c, symbol, operator⟩ := plain
  have scansSymbol := Token.scansBefore_operator operator
  rw [← symbol, String.ofList_toList] at scansSymbol
  have behind := scansSymbol.append scansRight fun _ _ => trivial
  have scans := scansLeft.append behind fun rest _ => by
    intro d tail isFirst
    rw [symbol] at isFirst
    left
    rw [← (List.cons_eq_cons.1 isFirst).1]
    exact operator
  rwa [← List.append_assoc, ← String.toList_append, ← String.toList_append]
    at scans

/-- The infix text of a tree is cut into its pieces. -/
theorem scansBefore_infixText
    {numbers : Number -> Prop}
    {operations : List Operation}
    (plain : ∀ operation ∈ operations, operation.HasPlainSymbol)
    {e : Expr}
    (isOver : e.Over operations)
    (scannable : e.IsScannable numbers)
    (parent : Option Operation)
    (isRight : Bool) :
    Token.ScansBefore Token.IsEnd (e.infixText parent isRight).toList
      (e.pieces parent isRight) := by
  induction e generalizing parent isRight with
  | const value =>
    have scans := value.scansBefore_text
    unfold infixText pieces
    split
    · exact scansBefore_parenthesized scans
    · exact scans
  | var name => exact Token.scansBefore_identifier scannable
  | node operation left right leftStep rightStep =>
    obtain ⟨member, overLeft, overRight⟩ := isOver
    have scans := scansBefore_operation (plain operation member)
      (leftStep overLeft scannable.1 (some operation) false)
      (rightStep overRight scannable.2 (some operation) true)
    unfold infixText pieces
    dsimp only
    split
    · exact scansBefore_parenthesized scans
    · exact scans
  | wrap inner inductive_step =>
    exact inductive_step isOver scannable parent isRight
  | blank => exact scannable.elim
  | foreign object => exact scannable.elim

/-- A tree of writable numbers can be written. -/
theorem writeText_of_isScannable
    {e : Expr}
    (scannable : e.IsScannable fun value => value.isWritable = true) :
    e.writeText = .ok e.text := by
  have writable :
      ∀ e : Expr, (e.IsScannable fun value => value.isWritable = true) ->
      e.unwritable? (some .text) = none := by
    intro e scannable
    induction e with
    | const value =>
      simp only [unwritable?, show value.isWritable = true from scannable,
        if_true]
    | node operation left right leftStep rightStep =>
      simp only [unwritable?, leftStep scannable.1, rightStep scannable.2,
        Option.none_or]
    | wrap inner inductive_step => exact inductive_step scannable
    | foreign object => exact scannable.elim
    | _ => rfl
  unfold writeText
  split
  · exact scannable.elim
  · rw [writable e scannable, written_none]

/-- The text of a tree is scanned as its pieces and the end of the input. -/
theorem scan_text
    {numbers : Number -> Prop}
    {operations : List Operation}
    (plain : ∀ operation ∈ operations, operation.HasPlainSymbol)
    {e : Expr}
    (isOver : e.Over operations)
    (scannable : e.IsScannable numbers) :
    ∃ tokens position, Token.scan e.text =
      .ok (tokens ++ [⟨.endOfInput, "", position⟩]) ∧
      tokens.map Token.piece = e.pieces none false :=
  (scansBefore_infixText plain isOver scannable none false).scan Token.isEnd_nil

end Expr
end Symbolic
