import Symbolic.Proofs.MatchingParentheses
import Symbolic.Proofs.Regrouping

/-!
# Printed parentheses are the fewest

Deleting a pair of matching parentheses from the text of a tree gives the text
of a bracketing with one pair less, unless the pair encloses a negative number.
The parser reads it as the regrouped tree.  This tree is printed with at most
the parentheses that are left, so it is not the tree whose text it was.
-/

namespace Symbolic

/-! ## Deleting a pair of parentheses -/

namespace Bracketing

variable {b b' content : Bracketing} {operations : List Operation}
  {numbers : Number -> Prop}

/-- The text of a bracketing is balanced. -/
theorem isBalanced_text
    (plain : ∀ operation ∈ operations, operation.HasPlainSymbol)
    (isOver : b.tree.Over operations)
    (scannable : b.tree.IsScannable numbers) :
    Text.IsBalanced b.text.toList := by
  induction b with
  | number value => exact value.hasNoParenthesis_text.isBalanced
  | name text =>
    exact (Token.IsIdentifier.hasNoParenthesis scannable).isBalanced
  | node operation left right leftStep rightStep =>
    have symbol := (plain operation isOver.1).hasNoParenthesis.isBalanced
    rw [text, String.toList_append, String.toList_append]
    exact ((leftStep isOver.2.1 scannable.1).append symbol).append
      (rightStep isOver.2.2 scannable.2)
  | bracket inner inductive_step =>
    have enclosed := (inductive_step isOver scannable).enclosed
    simpa [text, Expr.parenthesized] using enclosed

theorem length_pieces_pos (b : Bracketing) : 0 < b.pieces.length := by
  cases b with
  | number value =>
    cases value with
    | int n => simp [pieces, Number.pieces]
    | real x =>
      rw [pieces, Number.pieces]
      split <;> simp
  | name text => exact Nat.one_pos
  | node operation left right => simp [pieces]
  | bracket inner => simp [pieces, Expr.enclosed]

/-- One bracketing becomes another one by deleting the parentheses around some
content. -/
inductive Opens (content : Bracketing) : Bracketing -> Bracketing -> Prop where
  | here : Opens content (bracket content) content
  | inside {b b' : Bracketing} : Opens content b b' -> Opens content (bracket b) (bracket b')
  | left {operation : Operation} {left left' right : Bracketing} :
    Opens content left left' ->
      Opens content (node operation left right) (node operation left' right)
  | right {operation : Operation} {left right right' : Bracketing} :
    Opens content right right' ->
      Opens content (node operation left right) (node operation left right')

namespace Opens

theorem count_eq (opens : Opens content b b') : b.count = b'.count + 1 := by
  induction opens with
  | here => rfl
  | inside _ inductive_step => rw [count, count, inductive_step]
  | left _ inductive_step =>
    rw [count, count, inductive_step]
    omega
  | right _ inductive_step =>
    rw [count, count, inductive_step]
    omega

theorem tree_eq (opens : Opens content b b') : b.tree = b'.tree := by
  induction opens with
  | here => rfl
  | inside _ inductive_step => exact inductive_step
  | left _ inductive_step => rw [tree, tree, inductive_step]
  | right _ inductive_step => rw [tree, tree, inductive_step]

/-- Negative numbers stay in parentheses, unless theirs are deleted. -/
theorem enclosesSigns
    (opens : Opens content b b')
    (nonnegative : content.surface.isNegative = false)
    (encloses : b.EnclosesSigns) :
    b'.EnclosesSigns ∧
      (b.surface.isNegative = false -> b'.surface.isNegative = false) := by
  induction opens with
  | here => exact ⟨encloses, fun _ => nonnegative⟩
  | inside _ inductive_step => exact ⟨(inductive_step encloses).1, fun _ => rfl⟩
  | left _ inductive_step =>
    obtain ⟨leftNonnegative, rightNonnegative, leftEncloses, rightEncloses⟩ :=
      encloses
    obtain ⟨leftEncloses', kept⟩ := inductive_step leftEncloses
    exact ⟨⟨kept leftNonnegative, rightNonnegative, leftEncloses',
      rightEncloses⟩, fun _ => rfl⟩
  | right _ inductive_step =>
    obtain ⟨leftNonnegative, rightNonnegative, leftEncloses, rightEncloses⟩ :=
      encloses
    obtain ⟨rightEncloses', kept⟩ := inductive_step rightEncloses
    exact ⟨⟨leftNonnegative, kept rightNonnegative, leftEncloses,
      rightEncloses'⟩, fun _ => rfl⟩

end Opens

/-- Every pair of matching parentheses in the text of a bracketing stands around
some content, and deleting it gives the text of a bracketing. -/
theorem exists_opens
    (plain : ∀ operation ∈ operations, operation.HasPlainSymbol)
    (isOver : b.tree.Over operations)
    (scannable : b.tree.IsScannable numbers)
    {before inner after : List Char}
    (isText : b.text.toList = before ++ '(' :: (inner ++ ')' :: after))
    (balanced : Text.IsBalanced inner) :
    ∃ content b', Opens content b b' ∧ content.text.toList = inner ∧
      b'.text.toList = before ++ (inner ++ after) := by
  induction b generalizing before after with
  | number value =>
    exact absurd isText (value.hasNoParenthesis_text.ne_append _ _)
  | name text =>
    exact absurd isText
      ((Token.IsIdentifier.hasNoParenthesis scannable).ne_append _ _)
  | node operation left right leftStep rightStep =>
    obtain ⟨member, leftOver, rightOver⟩ := isOver
    have leftBalanced := isBalanced_text plain leftOver scannable.1
    have symbolLacks := (plain operation member).hasNoParenthesis
    rw [text, String.toList_append, String.toList_append, List.append_assoc]
      at isText
    rcases leftBalanced.locate balanced isText with
      ⟨after', isLeft, rfl⟩ | ⟨before', rfl, behind⟩
    · obtain ⟨content, left', opens, isContent, isText'⟩ :=
        leftStep leftOver scannable.1 isLeft
      refine ⟨content, node operation left' right, opens.left, isContent, ?_⟩
      simp only [text, String.toList_append, isText', List.append_assoc]
    · rcases symbolLacks.isBalanced.locate balanced behind with
        ⟨after', isSymbol, -⟩ | ⟨before'', rfl, isRight⟩
      · exact absurd isSymbol (symbolLacks.ne_append _ _)
      · obtain ⟨content, right', opens, isContent, isText'⟩ :=
          rightStep rightOver scannable.2 isRight
        refine ⟨content, node operation left right', opens.right, isContent, ?_⟩
        simp only [text, String.toList_append, isText', List.append_assoc]
  | bracket enclosed inductive_step =>
    have enclosedBalanced :=
      isBalanced_text (b := enclosed) plain isOver scannable
    have isEnclosed : '(' :: (enclosed.text.toList ++ [')']) =
        before ++ '(' :: (inner ++ ')' :: after) := by
      rw [← isText]
      simp [text, Expr.parenthesized]
    cases before with
    | nil =>
      obtain ⟨-, same⟩ := List.cons_eq_cons.1 isEnclosed
      obtain ⟨isContent, rfl⟩ := enclosedBalanced.eq_of_enclosed balanced same
      exact ⟨enclosed, enclosed, .here, isContent, by simpa using isContent⟩
    | cons c before =>
      obtain ⟨rfl, behind⟩ := List.cons_eq_cons.1 isEnclosed
      rcases enclosedBalanced.locate balanced behind with
        ⟨after', isText', rfl⟩ | ⟨before', rfl, isClosing⟩
      · obtain ⟨content, enclosed', opens, isContent, isText''⟩ :=
          inductive_step isOver scannable isText'
        refine ⟨content, bracket enclosed', opens.inside, isContent, ?_⟩
        simp [text, Expr.parenthesized, isText'']
      · exact absurd isClosing
          (by cases before' <;> simp)

theorem IsGrouped.enclosesSigns
    (grouped : b.IsGrouped) :
    b.EnclosesSigns := by
  induction b with
  | node operation left right leftStep rightStep =>
    obtain ⟨leftUnprotected, rightUnprotected, leftGrouped, rightGrouped⟩ :=
      grouped
    exact ⟨isNegative_of_unprotected leftUnprotected,
      isNegative_of_unprotected rightUnprotected,
      leftStep leftGrouped, rightStep rightGrouped⟩
  | bracket inner inductive_step => exact inductive_step grouped
  | _ => trivial

end Bracketing

/-! ## Trees that are read back -/

/-- A number has at most a sign and a numeral. -/
theorem Number.length_pieces_le (value : Number) : value.pieces.length ≤ 2 := by
  have signed (negative : Bool) (piece : TokenKind × String) :
      ((if negative then [(TokenKind.operator, "-")] else []) ++
        [piece]).length ≤ 2 := by
    cases negative <;> simp
  cases value with
  | int n =>
    rw [pieces]
    simpa only [decide_eq_true_eq]
      using signed (decide (n < 0)) (.integer, Decimal.numeral n.natAbs)
  | real x =>
    rw [pieces]
    split
    · exact Nat.le_succ 1
    · exact signed _ _

namespace Expr

theorem over_stripped
    {operations : List Operation}
    {e : Expr}
    (isOver : e.Over operations) :
    e.stripped.Over operations := by
  induction e with
  | node operation left right leftStep rightStep =>
    exact ⟨isOver.1, leftStep isOver.2.1, rightStep isOver.2.2⟩
  | wrap inner inductive_step => exact inductive_step isOver
  | _ => trivial

theorem IsScannable.stripped
    {numbers : Number -> Prop}
    {e : Expr}
    (scannable : e.IsScannable numbers) :
    e.stripped.IsScannable numbers := by
  induction e with
  | node operation left right leftStep rightStep =>
    exact ⟨leftStep scannable.1, rightStep scannable.2⟩
  | wrap inner inductive_step => exact inductive_step scannable
  | _ => exact scannable

/-- The bracketing of a tree has its operations. -/
theorem over_bracketing
    {operations : List Operation}
    {numbers : Number -> Prop}
    {e : Expr}
    (isOver : e.Over operations)
    (scannable : e.IsScannable numbers) :
    e.bracketing.tree.Over operations := by
  rw [tree_bracketing scannable]
  exact over_stripped isOver

/-- The bracketing of a tree has its numbers and names. -/
theorem isScannable_bracketing
    {numbers : Number -> Prop}
    {e : Expr}
    (scannable : e.IsScannable numbers) :
    e.bracketing.tree.IsScannable numbers := by
  rw [tree_bracketing scannable]
  exact scannable.stripped

/-- The words for infinite and undefined doubles are no doubles. -/
theorem isFinite_mapNumbers_reread (e : Expr) :
    (e.mapNumbers Number.reread).stripped.isFinite = true := by
  induction e with
  | const value =>
    cases value with
    | int n => rfl
    | real x =>
      rw [mapNumbers, Number.reread]
      split
      · rfl
      · next defined =>
        split
        · split <;> rfl
        · next notInfinite =>
          exact Decimal.isFinite_of_not (by simpa using defined)
            (by simpa using notInfinite)
  | node operation left right leftStep rightStep =>
    simp only [mapNumbers, stripped, isFinite, leftStep, rightStep,
      Bool.and_self]
  | wrap inner inductive_step => exact inductive_step
  | _ => rfl

/-- Finite doubles are read back. -/
theorem mapNumbers_reread
    {e : Expr}
    (scannable : e.IsScannable Number.IsReadable) :
    e.mapNumbers Number.reread = e := by
  induction e with
  | const value => exact Number.reread_of_isReadable scannable
  | node operation left right leftStep rightStep =>
    rw [mapNumbers, leftStep scannable.1, rightStep scannable.2]
  | wrap inner inductive_step => rw [mapNumbers, inductive_step scannable]
  | _ => rfl

theorem IsScannable.readable
    {e : Expr}
    (scannable : e.IsScannable fun value => value.isWritable = true)
    (finite : e.isFinite = true) :
    e.IsScannable Number.IsReadable := by
  induction e with
  | const value =>
    cases value with
    | int n => exact scannable
    | real x => exact finite
  | node operation left right leftStep rightStep =>
    obtain ⟨leftFinite, rightFinite⟩ := Bool.and_eq_true_iff.1 finite
    exact ⟨leftStep scannable.1 leftFinite, rightStep scannable.2 rightFinite⟩
  | wrap inner inductive_step => exact inductive_step scannable finite
  | _ => exact scannable

/-- Equal trees have the same infinite and undefined doubles. -/
theorem isFinite_of_equal
    {a b : Expr}
    (equal : a.equal b = .ok true) :
    a.isFinite = b.isFinite := by
  refine congr_of_equal (fun _ => rfl) ?_ equal
  intro operation operation' left left' right right' _ sameLeft sameRight
  rw [isFinite, isFinite, sameLeft, sameRight]

/-- With one pair of parentheses less, the text of a tree is not the text of an
equal tree. -/
theorem not_equal_of_opens
    {e : Expr}
    (isOver : e.Over Operation.arithmetic)
    (scannable : e.IsScannable fun value => value.isWritable = true)
    {content opened : Bracketing}
    (opens : Bracketing.Opens content e.bracketing opened)
    (encloses : opened.EnclosesSigns) :
    (opened.regroup.tree.mapNumbers Number.reread).stripped.equal e ≠
      .ok true := by
  intro equal
  have rearranges := Bracketing.rearranges_regroup opened
  have openedOver : opened.tree.Over Operation.arithmetic :=
    opens.tree_eq ▸ over_bracketing isOver scannable
  have regroupedOver := (rearranges.operations _).1 openedOver
  have finite : e.isFinite = true := by
    rw [← isFinite_of_equal equal, isFinite_mapNumbers_reread]
  have readable : opened.regroup.tree.IsScannable Number.IsReadable :=
    (rearranges.scannable _).1
      (opens.tree_eq ▸ isScannable_bracketing (scannable.readable finite))
  rw [mapNumbers_reread readable, Bracketing.stripped_tree] at equal
  have same : opened.regroup.tree.bracketing = e.bracketing := by
    rw [← e.bracketing_stripped,
      ← stripped_eq_of_equal regroupedOver isOver equal, bracketing_stripped]
  have grouped : opened.regroup.IsGrouped :=
    (Bracketing.regroup_isGrouped Registry.agreesOnSides_standard openedOver
      encloses).1
  have fewer : e.bracketing.count ≤ opened.count := by
    rw [← same, rearranges.count]
    exact grouped.count_bracketing_le
  have := opens.count_eq
  omega

/-- The text of a node is not the text of a number, which has at most two
pieces. -/
theorem text_node_ne
    {operation : Operation}
    {left right : Expr}
    (isOver : (node operation left right).Over Operation.arithmetic)
    {numbers : Number -> Prop}
    (scannable : (node operation left right).IsScannable numbers)
    (value : Number) :
    (node operation left right).text ≠ value.text := by
  intro same
  have scans := Bracketing.scansBefore_text Registry.hasPlainSymbol_standard
    (over_bracketing isOver scannable) (isScannable_bracketing scannable)
  rw [text_bracketing scannable, same] at scans
  have isPieces :=
    scans.unique Token.isEnd_nil value.scansBefore_text Token.isEnd_nil
  have short := value.length_pieces_le
  have leftPositive :=
    (left.bracketing.guarded operation false).length_pieces_pos
  have rightPositive :=
    (right.bracketing.guarded operation true).length_pieces_pos
  rw [← isPieces, bracketing, Bracketing.pieces, List.length_append,
    List.length_cons] at short
  omega

/-- Printed parentheses are the fewest possible.  Deleting one pair of matching
parentheses from the text of a tree of arithmetic, other than one around a
negative number, gives a text that is parsed, but not as a tree that is equal to
the first one.  This holds for all trees without blanks and foreign objects
whose variables are named by identifiers and whose integers may be written. -/
theorem parse_without_pair
    {e : Expr}
    (isOver : e.Over Operation.arithmetic)
    (scannable : e.IsScannable fun value => value.isWritable = true)
    {before inner after : String}
    (written : e.writeText = .ok (before ++ "(" ++ inner ++ ")" ++ after))
    (balanced : Text.IsBalanced inner.toList)
    (noNumber : ∀ value : Number, value.isNegative = true ->
      inner ≠ value.text) :
    ∃ tree, parse .standard (before ++ inner ++ after) = .ok tree ∧
      tree.equal e = .ok false := by
  have overTree := over_bracketing isOver scannable
  have scannableTree := isScannable_bracketing scannable
  have isText : e.bracketing.text.toList =
      before.toList ++ '(' :: (inner.toList ++ ')' :: after.toList) := by
    rw [text_bracketing scannable]
    rw [writeText_of_isScannable scannable, Except.ok.injEq] at written
    simp [written]
  obtain ⟨content, opened, opens, isContent, isText'⟩ := Bracketing.exists_opens
    Registry.hasPlainSymbol_standard overTree scannableTree isText balanced
  have nonnegative : content.surface.isNegative = false := by
    cases content with
    | number value =>
      by_contra negative
      exact noNumber value (Bool.eq_true_of_not_eq_false negative)
        (String.toList_injective isContent.symm)
    | _ => rfl
  have encloses :=
    (opens.enclosesSigns nonnegative e.bracketing_isGrouped.enclosesSigns).1
  rw [opens.tree_eq] at overTree scannableTree
  have scans := Bracketing.scansBefore_text Registry.hasPlainSymbol_standard
    overTree scannableTree
  have deleted : opened.text = before ++ inner ++ after := by
    apply String.toList_injective
    simp [isText']
  rw [deleted] at scans
  have parsed := Bracketing.parse_regroup Registry.built_standard.hasUniqueKeys
    Registry.agreesOnSides_standard readsNumbers_reread scans Token.isEnd_nil
      overTree
    scannableTree encloses
  refine ⟨_, parsed, ?_⟩
  obtain ⟨isEqual, compared⟩ := exists_equal_eq_ok
    (isPlain_of_parse parsed).foreign?_eq_none
      (foreign?_of_isScannable scannable)
  rw [compared, Except.ok.injEq, Bool.eq_false_iff]
  rintro rfl
  exact not_equal_of_opens isOver scannable opens encloses compared

/-- The inner parentheses of `((x-y)*2)^z` enclose a difference.  Without them,
the text is that of another tree. -/
theorem parse_without_pair_difference :
    ∃ tree, parse .standard "(x-y*2)^z" = .ok tree ∧
      tree.equal (.node .power
        (.node .product (.node .difference (.var "x") (.var "y")) (.int 2))
          (.var "z")) =
          .ok false := by
  have letter (c : Char) (starts : Token.startsIdentifier c = true) :
      Token.IsIdentifier (String.ofList [c]) :=
    ⟨c, [], String.toList_ofList, starts, by simp⟩
  let e : Expr := .node .power
    (.node .product (.node .difference (.var "x") (.var "y")) (.int 2))
      (.var "z")
  have writable : (Number.int 2).isWritable = true := by decide +kernel
  have scannable : e.IsScannable fun value => value.isWritable = true :=
    ⟨⟨⟨letter 'x' rfl, letter 'y' rfl⟩, writable⟩, letter 'z' rfl⟩
  have isText : e.text = "(" ++ "(" ++ "x-y" ++ ")" ++ "*2)^z" := by cbv
  have written := writeText_of_isScannable scannable
  rw [isText] at written
  have isOver : e.Over Operation.arithmetic := by
    simp [e, Over, Operation.arithmetic]
  refine parse_without_pair isOver scannable written (by decide)
    fun value _ => ?_
  exact text_node_ne isOver.2.1.2.1 scannable.1.1 value

end Expr
end Symbolic
