import Symbolic.Proofs.Bracketing

/-!
# Regrouping

The parser groups operands by the precedences of the operators around them.  On
bracketings this is a rearrangement that leaves the text alone: an operator and
its right operand that stand behind a grouped bracketing go into the right
operands of those operators that bind less strongly.  In this way every
bracketing whose negative numbers stand in parentheses becomes a grouped one
with the same text.
-/

namespace Symbolic

/-! ## Operands that need no parentheses -/

namespace Parse

/-- A right operand that may be read there needs no parentheses. -/
theorem isEnclosed_right_eq_false
    {parent child : Operation}
    (strong : rightMinimum parent ≤ child.precedence.level) :
    Expr.isEnclosed parent child true = false := by
  unfold rightMinimum at strong
  unfold Expr.isEnclosed
  split at strong
  · next side =>
    rw [if_neg (by omega)]
    split
    · rfl
    · rw [if_pos rfl, side]
      rfl
  · rw [if_neg (by omega), if_pos (by omega)]

/-- A left operand whose operators end in front of its parent needs no
parentheses. -/
theorem isEnclosed_left_eq_false
    {registry : Registry}
    (agrees : registry.AgreesOnSides)
    {parent child : Operation}
    (isParent : parent ∈ registry.operations)
    (isChild : child ∈ registry.operations)
    (ends : parent.precedence.level < rightMinimum child) :
    Expr.isEnclosed parent child false = false := by
  unfold rightMinimum at ends
  unfold Expr.isEnclosed
  split at ends
  · rw [if_neg (by omega), if_pos (by omega)]
  · next side =>
    rw [if_neg (by omega)]
    split
    · rfl
    · have same : parent.precedence.level = child.precedence.level := by omega
      rw [agrees parent isParent child isChild (Precedence.eq_of_level_eq same)]
      simpa using side

end Parse

namespace Bracketing

/-! ## Rearrangements -/

/-- Two bracketings of one text, with the same parentheses and the same leaves
and operations. -/
structure Rearranges (b b' : Bracketing) : Prop where
  text : b.text = b'.text
  pieces : b.pieces = b'.pieces
  count : b.count = b'.count
  operations : ∀ operations, b.tree.Over operations ↔ b'.tree.Over operations
  scannable : ∀ numbers, b.tree.IsScannable numbers ↔
    b'.tree.IsScannable numbers

namespace Rearranges

variable {a b c left right left' right' : Bracketing} {operation : Operation}

theorem refl (b : Bracketing) : Rearranges b b :=
  ⟨rfl, rfl, rfl, fun _ => Iff.rfl, fun _ => Iff.rfl⟩

theorem symm (rearranges : Rearranges a b) : Rearranges b a :=
  ⟨rearranges.text.symm, rearranges.pieces.symm, rearranges.count.symm,
    fun operations => (rearranges.operations operations).symm,
    fun numbers => (rearranges.scannable numbers).symm⟩

theorem trans (first : Rearranges a b) (second : Rearranges b c) :
    Rearranges a c :=
  ⟨first.text.trans second.text, first.pieces.trans second.pieces,
    first.count.trans second.count,
    fun operations =>
      (first.operations operations).trans (second.operations operations),
    fun numbers => (first.scannable numbers).trans (second.scannable numbers)⟩

/-- Operands may be rearranged on their own. -/
theorem node
    (inLeft : Rearranges left left')
    (inRight : Rearranges right right')
    (operation : Operation) :
    Rearranges (.node operation left right) (.node operation left' right') where
  text := by rw [Bracketing.text, Bracketing.text, inLeft.text, inRight.text]
  pieces := by
    rw [Bracketing.pieces, Bracketing.pieces, inLeft.pieces, inRight.pieces]
  count := by
    rw [Bracketing.count, Bracketing.count, inLeft.count, inRight.count]
  operations := fun operations =>
    and_congr Iff.rfl
      (and_congr (inLeft.operations operations) (inRight.operations operations))
  scannable := fun numbers =>
    and_congr (inLeft.scannable numbers) (inRight.scannable numbers)

theorem bracket (inside : Rearranges a b) :
    Rearranges (.bracket a) (.bracket b) where
  text := congrArg Expr.parenthesized inside.text
  pieces := congrArg Expr.enclosed inside.pieces
  count := congrArg Nat.succ inside.count
  operations := inside.operations
  scannable := inside.scannable

/-- Three operands around two operators, grouped in the two possible ways. -/
theorem rotate (outer operation : Operation) (left right item : Bracketing) :
    Rearranges (.node operation (.node outer left right) item)
      (.node outer left (.node operation right item)) where
  text := by simp only [Bracketing.text, String.append_assoc]
  pieces := by
    simp only [Bracketing.pieces, List.append_assoc, List.cons_append]
  count := Nat.add_assoc _ _ _
  operations := fun operations => by
    simp only [tree, Expr.Over]
    tauto
  scannable := fun _ => and_assoc

end Rearranges

/-! ## Putting operands behind a bracketing -/

/-- An operator and its right operand behind a bracketing.  They become part of
the right operand wherever the operator may be read there. -/
def extend : Bracketing -> Operation -> Bracketing -> Bracketing
  | node outer left right, operation, item =>
    if Parse.rightMinimum outer ≤ operation.precedence.level then
      node outer left (right.extend operation item)
    else node operation (node outer left right) item
  | b, operation, item => node operation b item

theorem rearranges_extend
    (b : Bracketing)
    (operation : Operation)
    (item : Bracketing) :
    Rearranges (node operation b item) (b.extend operation item) := by
  induction b with
  | node outer left right _ rightStep =>
    unfold extend
    split
    · exact (Rearranges.rotate outer operation left right item).trans
        ((Rearranges.refl left).node rightStep outer)
    · exact .refl _
  | _ => exact .refl _

/-- An operator and all operands of a second bracketing behind a first one. -/
def graft (b : Bracketing) (operation : Operation) : Bracketing -> Bracketing
  | node inner left right => (b.graft operation left).graft inner right
  | item => b.extend operation item

theorem rearranges_graft
    (b : Bracketing)
    (operation : Operation)
    (later : Bracketing) :
    Rearranges (node operation b later) (b.graft operation later) := by
  induction later generalizing b operation with
  | node inner left right leftStep rightStep =>
    have rotated := (Rearranges.rotate operation inner b left right).symm
    have inLeft := (leftStep b operation).node (.refl right) inner
    exact (rotated.trans inLeft).trans
      (rightStep (b.graft operation left) inner)
  | _ => exact rearranges_extend b operation _

/-- The bracketing with its operands grouped as the parser groups them. -/
def regroup : Bracketing -> Bracketing
  | node operation left right => left.regroup.graft operation right.regroup
  | bracket inner => bracket inner.regroup
  | b => b

/-- Regrouping rearranges a text and nothing else. -/
theorem rearranges_regroup (b : Bracketing) : Rearranges b b.regroup := by
  induction b with
  | node operation left right leftStep rightStep =>
    exact (leftStep.node rightStep operation).trans
      (rearranges_graft _ operation _)
  | bracket inner inductive_step => exact inductive_step.bracket
  | _ => exact .refl _

/-! ## Regrouped bracketings are grouped -/

/-- No operand is a negative number without parentheses. -/
def EnclosesSigns : Bracketing -> Prop
  | node _ left right =>
    left.surface.isNegative = false ∧ right.surface.isNegative = false ∧
      left.EnclosesSigns ∧ right.EnclosesSigns
  | bracket inner => inner.EnclosesSigns
  | _ => True

theorem isNegative_of_unprotected
    {b : Bracketing}
    {parent : Operation}
    {isRight : Bool}
    (unprotected : b.surface.isBracketed parent isRight = false) :
    b.surface.isNegative = false := by
  by_contra negative
  rw [Expr.isBracketed_of_isNegative (by simpa using negative)] at unprotected
  cases unprotected

/-- What is neither a node nor a negative number needs no parentheses. -/
theorem isBracketed_of_noNode
    {b : Bracketing}
    (noNode : ∀ operation left right, b ≠ node operation left right)
    (nonnegative : b.surface.isNegative = false)
    (parent : Operation)
    (isRight : Bool) :
    b.surface.isBracketed parent isRight = false := by
  cases b with
  | number value => exact nonnegative
  | node operation left right => exact absurd rfl (noNode operation left right)
  | _ => rfl

/-- Behind a bracketing there is no negative number any more. -/
theorem isNegative_extend
    (b : Bracketing)
    (operation : Operation)
    (item : Bracketing) :
    (b.extend operation item).surface.isNegative = false := by
  cases b with
  | node outer left right =>
    unfold extend
    split <;> rfl
  | _ => rfl

section Grouping

variable {registry : Registry} (agrees : registry.AgreesOnSides)
  {operation : Operation} (member : operation ∈ registry.operations)

include agrees member

/-- Behind a grouped bracketing an operator and its operand find their place.
The result may be a right operand wherever the bracketing and the operator
may. -/
theorem IsGrouped.extend
    {b item : Bracketing}
    (isOver : b.tree.Over registry.operations)
    (grouped : b.IsGrouped)
    (nonnegative : b.surface.isNegative = false)
    (itemGrouped : item.IsGrouped)
    (itemUnprotected : item.surface.isBracketed operation true = false) :
    (b.extend operation item).IsGrouped ∧
      ∀ parent, Parse.rightMinimum parent ≤ operation.precedence.level ->
        b.surface.isBracketed parent true = false ->
          (b.extend operation item).surface.isBracketed parent true =
            false := by
  have behind (b : Bracketing) (grouped : b.IsGrouped)
      (unprotected : b.surface.isBracketed operation false = false) :
      (Bracketing.node operation b item).IsGrouped ∧
        ∀ parent, Parse.rightMinimum parent ≤ operation.precedence.level ->
          b.surface.isBracketed parent true = false ->
            (Bracketing.node operation b item).surface.isBracketed parent true =
              false :=
    ⟨⟨unprotected, itemUnprotected, grouped, itemGrouped⟩,
      fun _ strong _ => Parse.isEnclosed_right_eq_false strong⟩
  induction b with
  | node outer left right _ rightStep =>
    unfold Bracketing.extend
    split
    · next strong =>
      obtain ⟨leftUnprotected, rightUnprotected, leftGrouped, rightGrouped⟩ :=
        grouped
      obtain ⟨extended, unprotected⟩ :=
        rightStep isOver.2.2 rightGrouped
          (isNegative_of_unprotected rightUnprotected)
      refine ⟨⟨leftUnprotected, unprotected outer strong rightUnprotected,
        leftGrouped, extended⟩, fun parent _ isUnprotected => isUnprotected⟩
    · next weak =>
      exact behind _ grouped
        (Parse.isEnclosed_left_eq_false agrees member isOver.1
          (Nat.lt_of_not_le weak))
  | _ =>
    exact behind _ grouped
      (isBracketed_of_noNode (by simp) nonnegative operation false)

/-- Grouped bracketings one behind the other find a common grouping. -/
theorem IsGrouped.graft
    {b later : Bracketing}
    (isOver : b.tree.Over registry.operations)
    (laterOver : later.tree.Over registry.operations)
    (grouped : b.IsGrouped)
    (nonnegative : b.surface.isNegative = false)
    (laterGrouped : later.IsGrouped)
    (laterNonnegative : later.surface.isNegative = false) :
    (b.graft operation later).IsGrouped ∧
      (b.graft operation later).surface.isNegative = false := by
  induction later generalizing b operation with
  | node inner left right leftStep rightStep =>
    obtain ⟨leftUnprotected, rightUnprotected, leftGrouped, rightGrouped⟩ :=
      laterGrouped
    obtain ⟨innerMember, leftOver, rightOver⟩ := laterOver
    obtain ⟨leftGrafted, leftNonnegative⟩ :=
      leftStep member isOver leftOver grouped nonnegative
      leftGrouped (isNegative_of_unprotected leftUnprotected)
    have graftedOver := ((rearranges_graft b operation left).operations _).1
      ⟨member, isOver, leftOver⟩
    exact rightStep innerMember graftedOver rightOver leftGrafted
      leftNonnegative rightGrouped (isNegative_of_unprotected rightUnprotected)
  | _ =>
    have unprotected :=
      isBracketed_of_noNode (by simp) laterNonnegative operation true
    exact ⟨(grouped.extend agrees member isOver nonnegative laterGrouped
      unprotected).1, isNegative_extend b operation _⟩

omit member in
/-- A bracketing over a registry whose negative numbers stand in parentheses is
grouped after regrouping. -/
theorem regroup_isGrouped
    {b : Bracketing}
    (isOver : b.tree.Over registry.operations)
    (encloses : b.EnclosesSigns) :
    b.regroup.IsGrouped ∧ (b.surface.isNegative = false ->
      b.regroup.surface.isNegative = false) := by
  induction b with
  | node operation left right leftStep rightStep =>
    obtain ⟨member, leftOver, rightOver⟩ := isOver
    obtain ⟨leftNonnegative, rightNonnegative, leftEncloses, rightEncloses⟩ :=
      encloses
    obtain ⟨leftGrouped, leftKept⟩ := leftStep leftOver leftEncloses
    obtain ⟨rightGrouped, rightKept⟩ := rightStep rightOver rightEncloses
    have grafted := leftGrouped.graft agrees member
      ((rearranges_regroup left).operations _ |>.1 leftOver)
      ((rearranges_regroup right).operations _ |>.1 rightOver)
      (leftKept leftNonnegative) rightGrouped (rightKept rightNonnegative)
    exact ⟨grafted.1, fun _ => grafted.2⟩
  | bracket inner inductive_step =>
    exact ⟨(inductive_step isOver encloses).1, fun _ => rfl⟩
  | _ => exact ⟨trivial, id⟩

end Grouping

/-- A text that is cut into the pieces of a bracketing whose negative numbers
stand in parentheses is parsed as the regrouped tree, with its numbers read. -/
theorem parse_regroup
    {registry : Registry}
    (unique : registry.HasUniqueKeys)
    (agrees : registry.AgreesOnSides)
    {numbers : Number -> Prop}
    {f : Number -> Expr}
    (readsNumbers : Expr.ReadsNumbers registry numbers f)
    {b : Bracketing}
    {suitable : List Char -> Prop}
    {text : String}
    (scans : Token.ScansBefore suitable text.toList b.pieces)
    (atEnd : suitable [])
    (isOver : b.tree.Over registry.operations)
    (scannable : b.tree.IsScannable numbers)
    (encloses : b.EnclosesSigns) :
    parse registry text = .ok (b.regroup.tree.mapNumbers f).stripped := by
  have rearranges := rearranges_regroup b
  rw [rearranges.pieces] at scans
  exact parse_of_scansBefore unique agrees readsNumbers scans atEnd
    ((rearranges.operations _).1 isOver)
      ((rearranges.scannable numbers).1 scannable)
    (regroup_isGrouped agrees isOver encloses).1

end Bracketing
end Symbolic
