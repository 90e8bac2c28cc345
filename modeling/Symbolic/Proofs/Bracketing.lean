import Symbolic.Proofs.RoundTrip

/-!
# Bracketings

A bracketing is a tree together with the parentheses of one of its texts.  It is
grouped if no operand without parentheses needs some.  The parser reads the text
of a grouped bracketing as its tree, however many of its parentheses are
superfluous, and the printer writes the grouped bracketing of a tree that has
the fewest.
-/

namespace Symbolic

/-- A tree with parentheses around some of its parts. -/
inductive Bracketing where
  | number (value : Number)
  | name (text : String)
  | node (operation : Operation) (left right : Bracketing)
  | bracket (inner : Bracketing)

namespace Bracketing

/-- The tree without its parentheses. -/
def tree : Bracketing -> Expr
  | number value => .const value
  | name text => .var text
  | node operation left right => .node operation left.tree right.tree
  | bracket inner => inner.tree

/-- The text with exactly these parentheses. -/
def text : Bracketing -> String
  | number value => value.text
  | name text => text
  | node operation left right => left.text ++ operation.symbol ++ right.text
  | bracket inner => Expr.parenthesized inner.text

/-- The pieces of the text. -/
def pieces : Bracketing -> List (TokenKind × String)
  | number value => value.pieces
  | name text => [(.identifier, text)]
  | node operation left right =>
    left.pieces ++ (.operator, operation.symbol) :: right.pieces
  | bracket inner => Expr.enclosed inner.pieces

/-- The number of pairs of parentheses. -/
def count : Bracketing -> Nat
  | node _ left right => left.count + right.count
  | bracket inner => inner.count + 1
  | _ => 0

/-- The tree as an operator beside it sees it: parentheses make a single operand
of what they enclose. -/
def surface : Bracketing -> Expr
  | bracket _ => .var ""
  | b => b.tree

/-- No operand needs parentheses that it does not have. -/
def IsGrouped : Bracketing -> Prop
  | node operation left right =>
    left.surface.isBracketed operation false = false ∧
      right.surface.isBracketed operation true = false ∧ left.IsGrouped ∧
        right.IsGrouped
  | bracket inner => inner.IsGrouped
  | _ => True

variable {b : Bracketing}

theorem stripped_tree (b : Bracketing) : b.tree.stripped = b.tree := by
  induction b with
  | node operation left right leftStep rightStep =>
    rw [tree, Expr.stripped, leftStep, rightStep]
  | bracket inner inductive_step => exact inductive_step
  | _ => rfl

theorem over_surface
    {operations : List Operation}
    (isOver : b.tree.Over operations) :
    b.surface.Over operations := by
  cases b with
  | bracket inner => trivial
  | _ => exact isOver

/-! ## Reading the text -/

theorem scansBefore_text
    {numbers : Number -> Prop}
    {operations : List Operation}
    (plain : ∀ operation ∈ operations, operation.HasPlainSymbol)
    (isOver : b.tree.Over operations)
    (scannable : b.tree.IsScannable numbers) :
    Token.ScansBefore Token.IsEnd b.text.toList b.pieces := by
  induction b with
  | number value => exact value.scansBefore_text
  | name text => exact Token.scansBefore_identifier scannable
  | node operation left right leftStep rightStep =>
    exact Expr.scansBefore_operation (plain operation isOver.1)
      (leftStep isOver.2.1 scannable.1) (rightStep isOver.2.2 scannable.2)
  | bracket inner inductive_step =>
    exact Expr.scansBefore_parenthesized (inductive_step isOver scannable)

section Reading

variable {registry : Registry} (unique : registry.HasUniqueKeys)
  (agrees : registry.AgreesOnSides) {numbers : Number -> Prop}
  {f : Number -> Expr} (readsNumbers : Expr.ReadsNumbers registry numbers f)

include unique agrees readsNumbers

/-- The pieces of a grouped bracketing are read as its tree, with its numbers
read, where its surface fits. -/
theorem isReadFrom_pieces
    (isOver : b.tree.Over registry.operations)
    (scannable : b.tree.IsScannable numbers)
    (grouped : b.IsGrouped)
    (minimum : Nat)
    (rest : List Token)
    (fits : b.surface.FitsBefore registry minimum rest) :
    (b.tree.mapNumbers f).IsReadFrom registry b.pieces minimum rest := by
  induction b generalizing minimum rest with
  | number value =>
    exact Expr.isReadFrom_const readsNumbers scannable fits.powers minimum
  | name text => exact Expr.isReadFrom_var text minimum rest
  | node operation left right leftStep rightStep =>
    obtain ⟨member, overLeft, overRight⟩ := isOver
    obtain ⟨leftUnprotected, rightUnprotected, leftGrouped, rightGrouped⟩ :=
      grouped
    obtain ⟨atMost, ends⟩ := fits.operators operation rfl
    refine Expr.isReadFrom_node (unique.bySymbol?_symbol member) atMost
      ends ?_ ?_
    · intro position behind
      exact leftStep overLeft scannable.1 leftGrouped minimum _
        (Expr.FitsBefore.left unique agrees
        member atMost (over_surface overLeft) leftUnprotected position)
    · exact rightStep overRight scannable.2 rightGrouped _ rest
        (Expr.FitsBefore.right ends rightUnprotected)
  | bracket inner inductive_step =>
    apply Expr.isReadFrom_enclosed
    intro position
    exact inductive_step isOver scannable grouped 0 _
      (Expr.fitsBefore_of_noOperator (by simp) rest inner.surface)

/-- A text that is cut into the pieces of a grouped bracketing is parsed as its
tree, with its numbers read. -/
theorem parse_of_scansBefore
    {suitable : List Char -> Prop}
    {text : String}
    (scans : Token.ScansBefore suitable text.toList b.pieces)
    (atEnd : suitable [])
    (isOver : b.tree.Over registry.operations)
    (scannable : b.tree.IsScannable numbers)
    (grouped : b.IsGrouped) :
    parse registry text = .ok (b.tree.mapNumbers f).stripped := by
  obtain ⟨tokens, position, scanned, spelled⟩ := scans.scan atEnd
  have fits : b.surface.FitsBefore registry 0 [⟨.endOfInput, "", position⟩] :=
    Expr.fitsBefore_of_noOperator (by simp) [] b.surface
  have reads := isReadFrom_pieces unique agrees readsNumbers isOver scannable
    grouped 0 _ fits
  rw [← spelled] at reads
  exact Expr.parse_of_isReadFrom scanned reads

end Reading

/-- The bracketing as an operand, in parentheses if it needs some. -/
def guarded (parent : Operation) (isRight : Bool) (b : Bracketing) :
    Bracketing :=
  if b.surface.isBracketed parent isRight then bracket b else b

theorem isBracketed_surface_guarded
    (parent : Operation)
    (isRight : Bool)
    (b : Bracketing) :
    (b.guarded parent isRight).surface.isBracketed parent isRight = false := by
  unfold guarded
  split
  · rfl
  · next unprotected => simpa using unprotected

/-- Parentheses do not change the tree. -/
theorem tree_guarded (parent : Operation) (isRight : Bool) (b : Bracketing) :
    (b.guarded parent isRight).tree = b.tree := by
  unfold guarded
  split <;> rfl

theorem IsGrouped.guarded
    (grouped : b.IsGrouped)
    (parent : Operation)
    (isRight : Bool) :
    (b.guarded parent isRight).IsGrouped := by
  unfold Bracketing.guarded
  split <;> exact grouped

end Bracketing

/-! ## The bracketing of a printed tree -/

namespace Expr

/-- The parentheses of the infix text of a tree. -/
def bracketing : Expr -> Bracketing
  | const value => .number value
  | var name => .name name
  | node operation left right =>
    .node operation (left.bracketing.guarded operation false)
      (right.bracketing.guarded operation true)
  | wrap inner => inner.bracketing
  | _ => .name "_"

theorem bracketing_isGrouped (e : Expr) : e.bracketing.IsGrouped := by
  induction e with
  | node operation left right leftStep rightStep =>
    exact ⟨Bracketing.isBracketed_surface_guarded operation false _,
      Bracketing.isBracketed_surface_guarded operation true _,
      leftStep.guarded operation false, rightStep.guarded operation true⟩
  | wrap inner inductive_step => exact inductive_step
  | _ => trivial

theorem bracketing_stripped (e : Expr) :
    e.stripped.bracketing = e.bracketing := by
  induction e with
  | node operation left right leftStep rightStep =>
    rw [stripped, bracketing, bracketing, leftStep, rightStep]
  | wrap inner inductive_step => exact inductive_step
  | _ => rfl

/-- The parentheses that are written do not change the tree. -/
theorem tree_bracketing
    {numbers : Number -> Prop}
    {e : Expr}
    (scannable : e.IsScannable numbers) :
    e.bracketing.tree = e.stripped := by
  induction e with
  | node operation left right leftStep rightStep =>
    rw [bracketing, Bracketing.tree, Bracketing.tree_guarded,
      Bracketing.tree_guarded,
      leftStep scannable.1, rightStep scannable.2, stripped]
  | wrap inner inductive_step => exact inductive_step scannable
  | blank => exact scannable.elim
  | foreign object => exact scannable.elim
  | _ => rfl

/-- The infix text of a tree is the text of its bracketing. -/
theorem text_bracketing
    {numbers : Number -> Prop}
    {e : Expr}
    (scannable : e.IsScannable numbers) :
    e.bracketing.text = e.text := by
  have operand : ∀ parent isRight,
      e.infixText parent isRight =
        (parent.elim e.bracketing fun outer =>
          e.bracketing.guarded outer isRight).text := by
    induction e with
    | const value =>
      intro parent isRight
      cases parent with
      | none => rfl
      | some outer =>
        simp only [infixText, Option.isSome_some, Bool.true_and,
          Option.elim_some, Bracketing.guarded]
        change _ = (if value.isNegative then _ else _ : Bracketing).text
        cases value.isNegative <;> rfl
    | var name =>
      intro parent isRight
      cases parent <;> rfl
    | node operation left right leftStep rightStep =>
      intro parent isRight
      have leftText := leftStep scannable.1 (some operation) false
      have rightText := rightStep scannable.2 (some operation) true
      rw [infixText, leftText, rightText]
      cases parent with
      | none => rfl
      | some outer =>
        change _ = (if isEnclosed outer operation isRight then _
          else _ : Bracketing).text
        cases enclosed : isEnclosed outer operation isRight <;>
          simp [enclosed] <;> rfl
    | wrap inner inductive_step => exact inductive_step scannable
    | blank => exact scannable.elim
    | foreign object => exact scannable.elim
  exact (operand none false).symm

end Expr

/-! ## The fewest parentheses -/

namespace Bracketing

variable {b : Bracketing}

/-- At most one pair is added. -/
theorem count_guarded_le
    (parent : Operation)
    (isRight : Bool)
    (b : Bracketing) :
    (b.guarded parent isRight).count ≤ b.count + 1 := by
  unfold guarded
  split
  · exact Nat.le_refl _
  · exact Nat.le_succ _

theorem guarded_eq_self
    {parent : Operation}
    {isRight : Bool}
    (unprotected : b.surface.isBracketed parent isRight = false) :
    b.guarded parent isRight = b := by
  rw [guarded, unprotected]
  rfl

/-- Parentheses apart, a bracketing and the printed one need parentheses in the
same places. -/
theorem isBracketed_surface_bracketing
    (noBracket : ∀ inner, b ≠ bracket inner)
    (parent : Operation)
    (isRight : Bool) :
    b.tree.bracketing.surface.isBracketed parent isRight =
      b.surface.isBracketed parent isRight := by
  cases b with
  | bracket inner => exact absurd rfl (noBracket inner)
  | _ => rfl

/-- Under an operation that asks for none, an operand has at least the
parentheses that are printed, its own included. -/
theorem count_guarded_bracketing_le
    (fewest : b.tree.bracketing.count ≤ b.count)
    (fewestInside : ∀ inner, b = bracket inner ->
      inner.tree.bracketing.count ≤ inner.count)
    {parent : Operation}
    {isRight : Bool}
    (unprotected : b.surface.isBracketed parent isRight = false) :
    (b.tree.bracketing.guarded parent isRight).count ≤ b.count := by
  by_cases isBracket : ∃ inner, b = bracket inner
  · obtain ⟨inner, rfl⟩ := isBracket
    calc (inner.tree.bracketing.guarded parent isRight).count
      _ ≤ inner.tree.bracketing.count + 1 := count_guarded_le parent isRight _
      _ ≤ inner.count + 1 := Nat.succ_le_succ (fewestInside inner rfl)
  · rw [guarded_eq_self]
    · exact fewest
    · rwa [isBracketed_surface_bracketing (not_exists.1 isBracket)]

/-- No grouped bracketing of a tree has fewer parentheses than the printed one.
The induction compares what is enclosed as well, since the printer may leave out
what encloses it. -/
theorem IsGrouped.count_bracketing_le
    (grouped : b.IsGrouped) :
    b.tree.bracketing.count ≤ b.count := by
  suffices fewest : b.tree.bracketing.count ≤ b.count ∧
      ∀ inner, b = bracket inner -> inner.tree.bracketing.count ≤ inner.count
        from fewest.1
  induction b with
  | node operation left right leftStep rightStep =>
    obtain ⟨leftUnprotected, rightUnprotected, leftGrouped, rightGrouped⟩ :=
      grouped
    obtain ⟨leftFewest, leftInside⟩ := leftStep leftGrouped
    obtain ⟨rightFewest, rightInside⟩ := rightStep rightGrouped
    refine ⟨Nat.add_le_add ?_ ?_, by simp⟩
    · exact count_guarded_bracketing_le leftFewest leftInside leftUnprotected
    · exact count_guarded_bracketing_le rightFewest rightInside rightUnprotected
  | bracket inner inductive_step =>
    obtain ⟨fewest, -⟩ := inductive_step grouped
    refine ⟨Nat.le_succ_of_le fewest, ?_⟩
    rintro _ ⟨⟩
    exact fewest
  | _ => exact ⟨Nat.le_refl _, by simp⟩

/-- Without any parentheses, a grouped bracketing is the printed one. -/
theorem IsGrouped.bracketing_tree
    (grouped : b.IsGrouped)
    (noParentheses : b.count = 0) :
    b.tree.bracketing = b := by
  have noBracket {b : Bracketing} (none : b.count = 0) :
      ∀ inner, b ≠ bracket inner := by
    rintro inner rfl
    exact absurd none (Nat.succ_ne_zero _)
  induction b with
  | node operation left right leftStep rightStep =>
    obtain ⟨leftUnprotected, rightUnprotected, leftGrouped, rightGrouped⟩ :=
      grouped
    obtain ⟨leftNone, rightNone⟩ := Nat.add_eq_zero_iff.1 noParentheses
    rw [tree, Expr.bracketing, leftStep leftGrouped leftNone,
      rightStep rightGrouped rightNone,
      guarded_eq_self leftUnprotected, guarded_eq_self rightUnprotected]
  | bracket inner => exact absurd rfl (noBracket noParentheses inner)
  | _ => rfl

end Bracketing
end Symbolic
