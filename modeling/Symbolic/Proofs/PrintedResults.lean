import Symbolic.Proofs.OrdinaryFailures
import Symbolic.Proofs.Provenance
import Symbolic.Proofs.RoundTrip

/-!
# Printed results are read back

The variables of a parsed text are named by its identifiers, and simplification
adds neither names nor blanks nor objects that are no operands.  So the text of
a result is parsed again, and what comes out differs from the result in nothing
but its infinite and undefined doubles.  Such doubles come from literals beyond
the largest double and from folded constants; their texts are words, which are
read as variables.
-/

namespace Symbolic

namespace Decimal

/-- The sign bit of an infinite double says whether it is less than zero. -/
theorem lt_zero_of_isInfinite
    {x : Float}
    (infinite : isInfinite x = true)
    (negative : isNegative x = true) :
    x < 0.0 := by
  have isDouble : ofSignAndBits true infinityBits = x := by
    rw [← ofSignAndBits_parts x, negative, eq_of_beq infinite]
  have isLess : ofSignAndBits true infinityBits < 0.0 := by
    decide +kernel
  rwa [isDouble] at isLess

end Decimal

namespace Number

/-- What the text of a number is read as. -/
def reread : Number -> Expr
  | int n => .int n
  | real x =>
    if Decimal.isUndefined x then .var "nan"
    else if Decimal.isInfinite x then
      if Decimal.isNegative x then .node .product (.int (-1)) (.var "inf")
      else .var "inf"
    else .const (.real x)

theorem reread_of_isReadable
    {value : Number}
    (readable : value.IsReadable) :
    value.reread = .const value := by
  cases value with
  | int n => rfl
  | real x =>
    rw [reread, Decimal.isUndefined_of_isFinite readable,
      Decimal.isInfinite_of_isFinite readable]
    rfl

end Number

namespace Parse

/-- A word is read as a variable wherever an operand may stand. -/
theorem plainUnary_word
    (registry : Registry)
    (name : String)
    (position : Nat)
    (rest : List Token) :
    plainUnary registry (⟨.identifier, name, position⟩ :: rest) =
      .ok (.var name, rest) := by
  rw [plainUnary_other registry (by simp), plainPrimary_identifier]

/-- With a minus sign in front, a word that no power follows is read as a
product. -/
theorem plainUnary_minus_word
    {registry : Registry}
    {multiplicative : Operation}
    (isMultiplicative : registry.multiplicative = some multiplicative)
    (name : String)
    (position position' : Nat)
    {rest : List Token}
    (noPower : NoPower registry rest) :
    plainUnary registry
        (⟨.operator, "-", position⟩ :: ⟨.identifier, name, position'⟩ :: rest) =
      .ok (.node multiplicative (.int (-1)) (.var name), rest) := by
  have noNumeral : NoNumeral (⟨.identifier, name, position'⟩ :: rest) := by
    intro token behind isFirst
    cases isFirst
    simp
  rw [plainUnary_minus registry isMultiplicative position noNumeral,
    plainUnary_word, Result.ok_bind]
  dsimp only
  rw [noPower.plainPowers]
  rfl

end Parse

namespace Expr

/-- Writable numbers are read back, infinite and undefined doubles as words. -/
theorem readsNumbers_reread :
    ReadsNumbers .standard
      (fun value => value.isWritable = true) Number.reread := by
  intro value rest tokens writable noPower spelled
  by_cases readable : value.IsReadable
  · rw [Number.plainUnary_pieces .standard readable spelled,
      Number.reread_of_isReadable readable]
    rfl
  · cases value with
    | int n => exact absurd writable readable
    | real x =>
      cases undefined : Decimal.isUndefined x with
      | true =>
        simp only [Number.pieces, undefined, if_true] at spelled
        obtain ⟨position, rfl⟩ := exists_of_pieces_singleton spelled
        rw [List.singleton_append, Parse.plainUnary_word, Number.reread,
          undefined]
        rfl
      | false =>
        have infinite : Decimal.isInfinite x = true := by
          by_contra finite
          exact readable (Decimal.isFinite_of_not undefined
            (by simpa using finite))
        simp only [Number.pieces, undefined, infinite, Bool.false_eq_true,
          if_false, if_true] at spelled
        cases negative : Decimal.isNegative x with
        | false =>
          simp only [negative, Bool.false_eq_true, if_false, List.nil_append]
            at spelled
          obtain ⟨position, rfl⟩ := exists_of_pieces_singleton spelled
          rw [List.singleton_append, Parse.plainUnary_word, Number.reread,
            undefined, infinite, negative]
          rfl
        | true =>
          simp only [negative, if_true, List.singleton_append] at spelled
          obtain ⟨position, behind, rfl, spelledBehind⟩ :=
            exists_of_pieces_cons spelled
          obtain ⟨position', rfl⟩ := exists_of_pieces_singleton spelledBehind
          have isLess : (Number.real x).isNegative = true :=
            decide_eq_true (Decimal.lt_zero_of_isInfinite infinite negative)
          rw [List.cons_append, List.singleton_append,
            Parse.plainUnary_minus_word rfl "inf" position position'
              (noPower isLess),
            Number.reread, undefined, infinite, negative]
          rfl

/-- No double of the tree is infinite or undefined. -/
def isFinite : Expr -> Bool
  | const (.real x) => Decimal.isFinite x
  | node _ left right => left.isFinite && right.isFinite
  | wrap inner => inner.isFinite
  | _ => true

/-- No integer of the tree has more digits than may be written. -/
def HasShortIntegers : Expr -> Prop
  | const value => value.isWritable = true
  | node _ left right => left.HasShortIntegers ∧ right.HasShortIntegers
  | wrap inner => inner.HasShortIntegers
  | _ => True

/-- What the text of a number is read as equals the number exactly if it is
finite. -/
theorem equal_reread (value : Number) :
    value.reread.stripped.equal (const value) = .ok (const value).isFinite := by
  by_cases readable : value.IsReadable
  · rw [Number.reread_of_isReadable readable, stripped_equal rfl]
    cases value with
    | int n => rfl
    | real x => exact congrArg Except.ok readable.symm
  · cases value with
    | int n => exact stripped_equal rfl
    | real x =>
      have infinite : (const (.real x)).isFinite = false :=
        Bool.eq_false_iff.2 readable
      rw [infinite, Number.reread]
      split
      · rfl
      · next defined =>
        split
        · split <;> rfl
        · next finite =>
          exact absurd (Decimal.isFinite_of_not (by simpa using defined)
            (by simpa using finite)) readable

/-- What the text of a tree is read as equals the tree exactly if its doubles
are finite. -/
theorem equal_mapNumbers_reread
    {numbers : Number -> Prop}
    {e : Expr}
    (scannable : e.IsScannable numbers) :
    (e.mapNumbers Number.reread).stripped.equal e = .ok e.isFinite := by
  induction e with
  | const value => exact equal_reread value
  | var name => exact stripped_equal rfl
  | node operation left right leftStep rightStep =>
    simp only [mapNumbers, stripped, equal_node, unwrap, if_true,
      leftStep scannable.1, rightStep scannable.2, Result.ok_bind, isFinite]
    cases left.isFinite <;> rfl
  | wrap inner inductive_step =>
    rw [equal_wrap_right]
    exact inductive_step scannable
  | blank => exact scannable.elim
  | foreign object => exact scannable.elim

/-- A plain tree without blanks whose variables are named by identifiers can be
scanned. -/
theorem IsPlain.isScannable
    {e : Expr}
    (plain : e.IsPlain)
    (noBlank : e.hasBlank = false)
    (named : ∀ name ∈ e.names, Token.IsIdentifier name)
    (short : e.HasShortIntegers) :
    e.IsScannable fun value => value.isWritable = true := by
  induction e with
  | const value => exact short
  | var name => exact named name (by simp)
  | node operation left right leftStep rightStep =>
    simp only [hasBlank, Bool.or_eq_false_iff] at noBlank
    simp only [names_node, List.mem_append] at named
    exact ⟨leftStep plain.1 noBlank.1
      (fun name member => named name (.inl member)) short.1,
      rightStep plain.2 noBlank.2
        (fun name member => named name (.inr member)) short.2⟩
  | wrap inner => exact plain.elim
  | blank => cases noBlank
  | foreign object => exact plain.elim

/-- Parsed trees are over the registered operations, without blanks, and their
variables are named by identifiers. -/
theorem over_and_named_of_parse
    {registry : Registry}
    {text : String}
    {tree : Expr}
    (parsed : parse registry text = .ok tree) :
    tree.Over registry.operations ∧ tree.hasBlank = false ∧
      ∀ name ∈ tree.names, Token.IsIdentifier name := by
  refine @Parse.closed_of_parse registry
    (fun tree => tree.Over registry.operations ∧
    tree.hasBlank = false ∧ ∀ name ∈ tree.names, Token.IsIdentifier name) ?_ ?_
      ?_ text tree parsed
  · intro value
    exact ⟨trivial, rfl, by simp [names]⟩
  · intro name identifier
    refine ⟨trivial, rfl, ?_⟩
    simpa using identifier
  · rintro operation member left right ⟨overLeft, noLeft, leftNamed⟩
      ⟨overRight, noRight, rightNamed⟩
    refine ⟨⟨member, overLeft, overRight⟩,
      by simp [hasBlank, noLeft, noRight], ?_⟩
    simp only [names_node, List.mem_append]
    exact fun name occurs => occurs.elim (leftNamed name) (rightNamed name)

end Expr

/-- Printed results can be parsed.  Whatever the limits are and whether searches
are tolerant or not, the result of simplifying a parsed text has a text, unless
one of its integers has too many digits, and this text is parsed as a tree that
is equal to the result exactly if none of its doubles is infinite or
undefined. -/
theorem parse_writeText_of_simplified
    (limits : Limits)
    (reusesCollisions : Bool)
    {text : String}
    {tree result : Expr}
    (parsed : parse .standard text = .ok tree)
    (returned : simplified ⟨.standard, limits, reusesCollisions⟩ tree =
      .ok result)
    (short : result.HasShortIntegers) :
    ∃ written again, result.writeText = .ok written ∧
      parse .standard written = .ok again ∧
      again.equal result = .ok result.isFinite := by
  obtain ⟨isOver, noBlank, named⟩ := Expr.over_and_named_of_parse parsed
  have plain : result.IsPlain :=
    (simplified_endsOrdinarily Registry.supports_standard
      (isPlain_of_parse parsed)).returned returned
  obtain ⟨drawn, -⟩ := Expr.IsDrawnFrom.of_simplified rfl isOver returned
  have scannable := plain.isScannable (drawn.noBlank noBlank)
    (fun name member => named name (drawn.names name member)) short
  refine ⟨result.text, (result.mapNumbers Number.reread).stripped, ?_, ?_, ?_⟩
  · exact Expr.writeText_of_isScannable scannable
  · exact Expr.parse_text Registry.built_standard.hasUniqueKeys
      Registry.agreesOnSides_standard
      Registry.hasPlainSymbol_standard Expr.readsNumbers_reread drawn.isOver
        scannable
  · exact Expr.equal_mapNumbers_reread scannable

/-- The result for `2-(x-3)` has a negative factor, which is printed between
parentheses. -/
theorem parse_writeText_of_simplified_difference :
    ∃ written again,
      Expr.writeText (.node .sum (.int 5)
        (.node .product (.int (-1)) (.var "x"))) = .ok written ∧
        parse .standard written = .ok again ∧
        again.equal (.node .sum (.int 5)
          (.node .product (.int (-1)) (.var "x"))) = .ok true := by
  have parsed : parse .standard "2-(x-3)" =
      .ok (.node .difference (.int 2)
        (.node .difference (.var "x") (.int 3))) := by
    cbv
  have writable : ∀ n ∈ ([5, -1] : List Int),
      (Number.int n).isWritable = true := by
    decide +kernel
  exact parse_writeText_of_simplified .standard true parsed (by cbv)
    ⟨writable 5 (by simp), writable (-1) (by simp), trivial⟩

/-- The literal `1e400` is beyond all doubles.  Simplification keeps the
infinite double that stands for it, and the text of this double is read as a
variable. -/
theorem parse_writeText_of_infinite :
    ∃ tree, parse .standard "1e400" = .ok tree ∧
      simplified .standard tree = .ok tree ∧ tree.HasShortIntegers ∧
      tree.writeText = .ok "inf" ∧ parse .standard "inf" = .ok (.var "inf") ∧
      (Expr.var "inf").equal tree = .ok false := by
  have scanned : Token.scan "1e400" =
      .ok [⟨.real, "1e400", 0⟩, ⟨.endOfInput, "", 5⟩] := by cbv
  have infinite : Decimal.isUndefined (Parse.realLiteral "1e400") = false ∧
      Decimal.isInfinite (Parse.realLiteral "1e400") = true ∧
      Decimal.isNegative (Parse.realLiteral "1e400") = false := by
    decide +kernel
  have ends : Parse.EndsAt .standard 0 [⟨.endOfInput, "", 5⟩] := by
    intro symbol position behind isFirst
    cases isFirst
  have scannable : (Expr.const (.real (Parse.realLiteral "1e400"))).IsScannable
      fun value => value.isWritable = true := rfl
  refine ⟨.const (.real (Parse.realLiteral "1e400")), ?_, rfl, rfl, ?_,
    by cbv, rfl⟩
  · rw [parse, scanned, Result.ok_bind, Parse.tokens_eq,
      Parse.plainExpression_eq,
      Parse.plainUnary_other .standard (by simp), Parse.plainPrimary_real,
        Result.ok_bind]
    dsimp only
    rw [ends.plainOperators]
    rfl
  · rw [Expr.writeText_of_isScannable scannable, Expr.text, Expr.infixText,
      Number.text, Decimal.doubleText, infinite.1, infinite.2.1, infinite.2.2]
    rfl

end Symbolic
