import Mathlib.Data.List.Basic
import Symbolic.Proofs.TokenBoundaries

/-!
# Tokens and white space

The tokens of a text are parts of it, in order and apart from each other, and
whatever belongs to none of them is white space.  Every token alone stays one
token in front of white space.  So the texts of the tokens are cut into the same
tokens again, however much white space is put between them.
-/

namespace Symbolic

/-- At least one character, and nothing but blanks. -/
def Text.IsWhiteSpace (text : String) : Prop :=
  text ≠ "" ∧ ∀ c ∈ text.toList, Text.isBlank c = true

namespace Token

/-- The position behind a token. -/
def stop (token : Token) : Nat :=
  token.position + token.text.length

/-- The position belongs to the token. -/
def Covers (token : Token) (position : Nat) : Prop :=
  token.position ≤ position ∧ position < token.stop

/-- One token stands before another, and they do not overlap. -/
def Precedes (token later : Token) : Prop :=
  token.position < later.position ∧ token.stop ≤ later.position

/-- What a token contributes to the pieces of a text: nothing if it marks the
end. -/
def pieces (token : Token) : List (TokenKind × String) :=
  if token.kind = .endOfInput then [] else [token.piece]

/-- Texts one after the other.  The separator with number `n` stands behind the
text with that number, unless it is the last one. -/
def joinedBy (separator : Nat -> String) : List String -> String
  | [] => ""
  | [word] => word
  | word :: next :: words =>
    word ++ separator 0 ++ joinedBy (fun n => separator (n + 1)) (next :: words)

/-! ## Parts of the text -/

namespace Partitions

variable {position : Nat} {cs : List Char} {tokens : List Token}

/-- Every token stands in the text where its position says. -/
theorem exists_offset
    (partitions : Partitions position cs tokens)
    (token : Token)
    (member : token ∈ tokens) :
    ∃ n, token.position = position + n ∧ token.text.toList <+: cs.drop n := by
  induction partitions with
  | atEnd position =>
    obtain rfl := List.mem_singleton.1 member
    exact ⟨0, rfl, List.nil_prefix⟩
  | blank isBlank later inductive_step =>
    obtain ⟨n, isPosition, isPart⟩ := inductive_step member
    exact ⟨n + 1, by omega, isPart⟩
  | @token position kind characters rest tokens noEnd notEmpty later inductive_step =>
    rcases List.mem_cons.1 member with rfl | inLater
    · refine ⟨0, rfl, ?_⟩
      rw [List.drop_zero, String.toList_ofList]
      exact List.prefix_append characters rest
    · obtain ⟨n, isPosition, isPart⟩ := inductive_step inLater
      refine ⟨characters.length + n, by omega, ?_⟩
      rwa [← List.drop_drop, List.drop_left]

/-- The tokens are in order and do not overlap. -/
theorem pairwise_precedes (partitions : Partitions position cs tokens) :
    tokens.Pairwise Precedes := by
  induction partitions with
  | atEnd position => exact List.pairwise_singleton _ _
  | blank isBlank later inductive_step => exact inductive_step
  | @token position kind characters rest tokens noEnd notEmpty later inductive_step =>
    refine List.pairwise_cons.2 ⟨fun other member => ?_, inductive_step⟩
    obtain ⟨n, isPosition, -⟩ := later.exists_offset other member
    have positive := List.length_pos_iff.2 notEmpty
    simp only [Precedes, stop, String.length_ofList]
    omega

/-- What belongs to no token is blank. -/
theorem isBlank_of_uncovered
    (partitions : Partitions position cs tokens)
    {n : Nat}
    {c : Char}
    (found : cs[n]? = some c)
    (uncovered : ∀ token ∈ tokens, ¬token.Covers (position + n)) :
    Text.isBlank c = true := by
  induction partitions generalizing n with
  | atEnd position => cases found
  | @blank position first cs tokens isBlank later inductive_step =>
    cases n with
    | zero =>
      cases found
      exact isBlank
    | succ n =>
      refine inductive_step found fun token member => ?_
      rw [Nat.add_assoc, Nat.add_comm 1]
      exact uncovered token member
  | @token position kind characters rest tokens noEnd notEmpty later inductive_step =>
    obtain ⟨outside, uncovered⟩ := List.forall_mem_cons.1 uncovered
    simp only [Covers, stop, String.length_ofList] at outside
    have behind : characters.length ≤ n := by omega
    rw [List.getElem?_append_right behind] at found
    refine inductive_step found fun token member => ?_
    rw [Nat.add_assoc, Nat.add_sub_cancel' behind]
    exact uncovered token member

end Partitions

/-! ## Tokens between white space -/

theorem startsBlank_of_isWhiteSpace
    {separator : String}
    (whiteSpace : Text.IsWhiteSpace separator)
    (rest : List Char) :
    StartsBlank (separator.toList ++ rest) := by
  obtain ⟨notEmpty, allBlank⟩ := whiteSpace
  obtain ⟨c, cs, isText⟩ :=
    List.exists_cons_of_ne_nil (mt String.toList_eq_nil_iff.1 notEmpty)
  intro first tail isFirst
  rw [isText, List.cons_append] at isFirst
  obtain ⟨rfl, -⟩ := List.cons_eq_cons.1 isFirst
  exact allBlank c (by rw [isText]; exact List.mem_cons_self)

/-- Every token of a text stays what it is when it stands alone in front of
white space. -/
theorem scansBefore_of_mem
    {position : Nat}
    {cs : List Char}
    {tokens : List Token}
    (scanned : scanFrom position cs = .ok tokens)
    (token : Token)
    (member : token ∈ tokens) :
    ScansBefore StartsBlank token.text.toList token.pieces := by
  rcases exists_lexeme_of_mem scanned token member with
    isEnd | ⟨c, rest, ⟨kind, characters, behind⟩, noBlank, found, isLexeme⟩
  · obtain ⟨isKind, isText⟩ := Prod.mk.inj isEnd
    rw [pieces, if_pos isKind, isText]
    exact (scansBefore_blanks (by simp)).mono fun _ _ => trivial
  · obtain ⟨isKind, isText⟩ := Prod.mk.inj isLexeme
    obtain ⟨whole, notEmpty⟩ := lexeme?_append found
    obtain ⟨first, tail, rfl⟩ := List.exists_cons_of_ne_nil notEmpty
    obtain ⟨rfl, -⟩ := List.cons_eq_cons.1 whole
    rw [pieces, isKind, if_neg (kind_of_lexeme? found), isLexeme, isText,
      String.toList_ofList]
    refine scansBefore_of_lexeme noBlank fun rest' isBlank => ?_
    exact @lexeme?_cut [] behind rest' isBlank first rest tail kind found

/-- Tokens that stay what they are in front of white space do so one after the
other, with white space between them. -/
theorem scansBefore_joinedBy
    {separator : Nat -> String}
    (whiteSpace : ∀ n, Text.IsWhiteSpace (separator n))
    {tokens : List Token}
    (scans : ∀ token ∈ tokens,
      ScansBefore StartsBlank token.text.toList token.pieces) :
    ScansBefore StartsBlank (joinedBy separator (tokens.map text)).toList
      (tokens.flatMap pieces) := by
  induction tokens generalizing separator with
  | nil =>
    exact (scansBefore_blanks (by simp [joinedBy])).mono fun _ _ => trivial
  | cons token tokens inductive_step =>
    obtain ⟨first, scans⟩ := List.forall_mem_cons.1 scans
    cases tokens with
    | nil => simpa [joinedBy] using first
    | cons next tokens =>
      have later := inductive_step (fun n => whiteSpace (n + 1)) scans
      have gap :=
        (scansBefore_blanks (whiteSpace 0).2).append later fun _ _ => trivial
      have both := first.append gap fun rest _ => by
        rw [List.append_assoc]
        exact startsBlank_of_isWhiteSpace (whiteSpace 0) _
      simpa [joinedBy, List.append_assoc] using both

theorem flatMap_pieces
    {lexemes : List Token}
    (noEnd : ∀ token ∈ lexemes, token.kind ≠ .endOfInput) :
    lexemes.flatMap pieces = lexemes.map piece := by
  rw [List.map_eq_flatMap]
  exact List.flatMap_congr fun token member => if_neg (noEnd token member)

/-- The texts of the tokens with white space between them are scanned as the
same tokens, with or without the empty text of the last one. -/
theorem scan_joinedBy
    {text : String}
    {tokens : List Token}
    (scanned : scan text = .ok tokens)
    {separator : Nat -> String}
    (whiteSpace : ∀ n, Text.IsWhiteSpace (separator n))
    {words : List String}
    (isWords :
      words ∈ [tokens.map Token.text, tokens.dropLast.map Token.text]) :
    ∃ again, scan (joinedBy separator words) = .ok again ∧
      again.map piece = tokens.map piece := by
  obtain ⟨lexemes, isTokens, proper⟩ :=
    (partitions_of_scanFrom scanned).exists_lexemes
  have noEnd : lexemes.flatMap pieces = lexemes.map piece :=
    flatMap_pieces fun token member => (proper token member).1
  have scans := scansBefore_of_mem scanned
  obtain ⟨chosen, rfl, sublist, isPieces⟩ :
      ∃ chosen, words = chosen.map Token.text ∧
      chosen ⊆ tokens ∧ chosen.flatMap pieces = lexemes.map piece := by
    rcases List.mem_cons.1 isWords with rfl | isWords
    · refine ⟨tokens, rfl, List.Subset.refl _, ?_⟩
      rw [isTokens, List.flatMap_append, noEnd]
      exact List.append_nil _
    · obtain rfl := List.mem_singleton.1 isWords
      refine ⟨tokens.dropLast, rfl, List.dropLast_subset tokens, ?_⟩
      rw [isTokens, List.dropLast_concat, noEnd]
  have joined := scansBefore_joinedBy whiteSpace fun token member =>
    scans token (sublist member)
  rw [isPieces] at joined
  obtain ⟨again, position, scannedAgain, isAgain⟩ :=
    joined.scan fun _ _ isFirst => by cases isFirst
  refine ⟨_, scannedAgain, ?_⟩
  rw [isTokens, List.map_append, List.map_append, isAgain]
  rfl

/-- Scanning divides a text into parts.  The tokens stand in the text at their
positions, in order and without overlap; all but the last are not empty, the
last one marks the end, and every character outside the tokens is blank.
Nothing else of the white space matters: the texts of the tokens, with any other
white space between them, have the same tokens up to their positions. -/
theorem scan_partitions
    {text : String}
    {tokens : List Token}
    (scanned : scan text = .ok tokens) :
    (∃ lexemes, tokens = lexemes ++ [⟨.endOfInput, "", text.length⟩] ∧
        ∀ token ∈ lexemes, token.kind ≠ .endOfInput ∧ token.text ≠ "") ∧
      (∀ token ∈ tokens,
        token.text.toList <+: text.toList.drop token.position) ∧
      tokens.Pairwise Precedes ∧
      (∀ n c, text.toList[n]? = some c -> (∀ token ∈ tokens, ¬token.Covers n) ->
        Text.isBlank c = true) ∧
      ∀ separator : Nat -> String, (∀ n, Text.IsWhiteSpace (separator n)) ->
        ∀ words ∈ [tokens.map Token.text, tokens.dropLast.map Token.text],
          ∃ again, scan (joinedBy separator words) = .ok again ∧
            again.map piece = tokens.map piece := by
  have partitions := partitions_of_scanFrom scanned
  refine ⟨?_, fun token member => ?_, partitions.pairwise_precedes,
    fun n c found uncovered => ?_,
    fun separator whiteSpace words isWords =>
      scan_joinedBy scanned whiteSpace isWords⟩
  · rw [← String.length_toList, ← Nat.zero_add text.toList.length]
    exact partitions.exists_lexemes
  · obtain ⟨n, isPosition, isPart⟩ := partitions.exists_offset token member
    rw [isPosition, Nat.zero_add]
    exact isPart
  · refine partitions.isBlank_of_uncovered found fun token member => ?_
    rw [Nat.zero_add]
    exact uncovered token member

/-- A numeral with an exponent, an operator and a variable, first with one blank
in front and then with white space of two kinds between them. -/
theorem scan_partitions_exponent :
    let tokens : List Token := [⟨.real, "2.e-3", 1⟩, ⟨.operator, "*", 6⟩,
      ⟨.identifier, "x_1", 7⟩, ⟨.endOfInput, "", 10⟩]
    scan " 2.e-3*x_1" = .ok tokens ∧ Text.IsWhiteSpace "\t\u3000" ∧
      tokens.Pairwise Precedes ∧
      ∃ again, scan "2.e-3\t\u3000*\t\u3000x_1" = .ok again ∧
        again.map piece = tokens.map piece := by
  intro tokens
  have scanned : scan " 2.e-3*x_1" = .ok tokens :=
    Result.eq_ok_of_toOption (by decide +kernel)
  have whiteSpace : Text.IsWhiteSpace "\t\u3000" :=
    ⟨by decide, List.all_eq_true.1 (by decide)⟩
  obtain ⟨-, -, ordered, -, respaced⟩ := scan_partitions scanned
  exact ⟨scanned, whiteSpace, ordered,
    respaced (fun _ => "\t\u3000")
      (fun _ => whiteSpace) ["2.e-3", "*", "x_1"] (by simp [tokens])⟩

end Token
end Symbolic
