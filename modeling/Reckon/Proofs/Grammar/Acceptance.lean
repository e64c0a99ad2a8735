import Reckon.Proofs.Equation.Faults
import Reckon.Proofs.Grammar.Alternation
import Reckon.Proofs.Grammar.Parsing

/-!
# Which expressions are accepted

No stage checks the grammar: the yard looks at priorities and brackets, the evaluation at
heights. Still an expression that has a value is a sequence of the grammar, unless an operand
follows directly on another in it; only an operator out of its turn can make up for the value
that is then too many. Expressions of the second kind are accepted as well, such as those in
postfix order.
-/

namespace Reckon

namespace BinaryOperator

theorem groupsLeft_congr {o o' : BinaryOperator} (h : o.priority = o'.priority)
    (leftAssociative : Bool) : o.groupsLeft leftAssociative = o'.groupsLeft leftAssociative := by
  revert h
  cases o <;> cases o' <;> first | exact fun _ ↦ rfl | exact fun h ↦ absurd h (by decide)

end BinaryOperator

namespace Grammar

/-! ## From the plain grammar to derivations -/

section Prepend

variable {leftAssociative : Bool} {front : List Piece} {first : Expr Binary64}

/-- An operand and an operator before what derives from the level of the operator. -/
theorem Derives.joins (o : BinaryOperator) (hfront : Derives leftAssociative tightest front first)
    {back : List Piece} {e : Expr Binary64}
    (hback : Derives leftAssociative (o.priority + 1) back e) :
    Derives leftAssociative o.priority (front ++ o.symbol :: back) (.binary o first e) := by
  have hlt := priority_lt_tightest o
  cases hgroups : o.groupsLeft leftAssociative with
  | true => exact .toLeft hgroups (hfront.loosen o.priority_pos (Nat.le_of_lt hlt)) hback
  | false =>
    exact .toRight hgroups (hfront.loosen (Nat.succ_pos _) hlt) (.tighter o.priority_pos hback)

/-- An operand and an operator before what derives from a level that is not tighter. The operator
goes down the left side of the derivation to where it binds. -/
theorem Derives.prepend (o : BinaryOperator)
    (hfront : Derives leftAssociative tightest front first) {level : Nat} {back : List Piece}
    {e : Expr Binary64} (hback : Derives leftAssociative level back e) (hle : level ≤ o.priority) :
    ∃ e', Derives leftAssociative level (front ++ o.symbol :: back) e' := by
  have hlt := priority_lt_tightest o
  induction hback with
  | numeral | group | plus | minus => exact absurd hle (Nat.not_le_of_lt hlt)
  | @tighter level back e positive h ih =>
    rcases Nat.lt_or_eq_of_le hle with hless | rfl
    · obtain ⟨e', he'⟩ := ih hless
      exact ⟨e', .tighter positive he'⟩
    · exact ⟨_, hfront.joins o h⟩
  | @toRight o' middle back left right groups hleft hright ihl ihr =>
    rcases Nat.lt_or_eq_of_le hle with hless | heq
    · obtain ⟨e', he'⟩ := ihl hless
      exact ⟨.binary o' e' right, by simpa using Derives.toRight groups he' hright⟩
    · have hrest := Derives.toRight groups hleft hright
      rw [BinaryOperator.groupsLeft_congr heq] at groups
      rw [heq] at hrest ⊢
      exact ⟨_, .toRight groups (hfront.loosen (Nat.succ_pos _) hlt) hrest⟩
  | @toLeft o' middle back left right groups hleft hright ihl ihr =>
    obtain ⟨e', he'⟩ := ihl hle
    exact ⟨.binary o' e' right, by simpa using Derives.toLeft groups he' hright⟩

end Prepend

mutual

theorem Operand.derives (leftAssociative : Bool) {pieces : List Piece} :
    Operand pieces → ∃ e, Derives leftAssociative tightest pieces e
  | .numeral n => ⟨_, .numeral n⟩
  | .group h => (h.derives leftAssociative).imp fun _ ↦ .group
  | .plus h => (h.derives leftAssociative).imp fun _ ↦ .plus
  | .minus h => by
    obtain ⟨e, he⟩ := h.derives leftAssociative
    exact ⟨.negate e, .minus he⟩

/-- Every sequence of the plain grammar derives in either mode. -/
theorem Sequence.derives (leftAssociative : Bool) {pieces : List Piece} :
    Sequence pieces → ∃ e, Derives leftAssociative 1 pieces e
  | .single h => by
    obtain ⟨e, he⟩ := h.derives leftAssociative
    exact ⟨e, he.loosen Nat.one_pos (by decide)⟩
  | .more o hfront hback => by
    obtain ⟨first, hfirst⟩ := hfront.derives leftAssociative
    obtain ⟨rest, hrest⟩ := hback.derives leftAssociative
    exact hfirst.prepend o hrest o.priority_pos

end

/-! ## From values to the plain grammar -/

open Piece Reckon.Bracket

theorem height_unbracketed {α : Type} (tokens : List (Token α)) :
    Rpn.height (Token.unbracketed tokens) = Rpn.height tokens := by
  have hvalue : (Token.unbracketed tokens).countP Token.isValue = tokens.countP Token.isValue := by
    rw [Token.unbracketed, List.countP_filter]
    refine List.countP_congr fun token _ ↦ ?_
    cases token <;> simp [Token.isValue, Token.bracket?]
  have hbinary : (Token.unbracketed tokens).countP Token.isBinary = tokens.countP Token.isBinary := by
    rw [Token.unbracketed, List.countP_filter]
    refine List.countP_congr fun token _ ↦ ?_
    cases token with
    | value x => simp [Token.isBinary]
    | operator o => cases o <;> simp [Token.isBinary, Token.bracket?, Operator.arity]
  rw [Rpn.height, Rpn.height, hvalue, hbinary]

/-- What the stages find out about an expression that has a value. -/
theorem balanced_of_value {A : Arithmetic Binary64} {reading : Reading} {expression : String}
    {x : Binary64} (h : solveIn A reading expression = .ok x) :
    ∃ pieces tokens, Piece.ofText reading.skipBlanks expression.toList = .ok pieces ∧
      Token.ofPieces pieces = .ok tokens ∧ Balanced (word pieces.flatten) ∧
      Rpn.height tokens = 1 := by
  cases hbuild : Equation.ofText reading expression with
  | error fault => cases h.symm.trans (Equation.solveIn_of_error hbuild)
  | ok equation =>
    have hvalue := @Equation.verdict_solveIn A _ _ _ hbuild
    have hequation := Equation.verdict_ofText reading expression
    rw [h] at hvalue
    rw [hbuild] at hequation
    cases hequation with
    | @built pieces tokens order _ _ hbalanced hpieces htokens hperm =>
      rw [(ofText_eq_ok_iff.mp hpieces).1.word_eq] at hbalanced
      refine ⟨pieces, tokens, hpieces, htokens, hbalanced, ?_⟩
      cases hvalue with
      | value _ hone => rw [← height_unbracketed, ← Rpn.height_perm hperm, hone]

/-- Pieces that are read with a height of one and balanced brackets are a sequence of the
grammar, if no operand follows directly on another. -/
theorem sequence_of_height {skipBlanks : Bool} {text : List Char} {pieces : List Piece}
    {tokens : List (Token Binary64)} (hpieces : Piece.ofText skipBlanks text = .ok pieces)
    (htokens : Token.ofPieces pieces = .ok tokens) (hbalanced : Balanced (word pieces.flatten))
    (hheight : Rpn.height tokens = 1) (hseparated : Separated pieces) : Sequence pieces := by
  have hformed := Token.formed_of_ofPieces (ofText_eq_ok_iff.mp hpieces).1.formed_or_malformed htokens
  have howes : Owes false pieces tokens :=
    owes_of_after hformed hseparated (fun hfalse ↦ absurd hfalse (by decide)) htokens
  exact (howes.2 (by simpa using hheight)).sequence hbalanced

/-- An expression is a sequence of the grammar exactly if it has a value and no operand follows
directly on another in it. Any expression with a value has balanced brackets and one numeral more
than binary operators, and any other is refused for a fault of its text. -/
theorem sequence_iff_value_of_separated (A : Arithmetic Binary64) (reading : Reading)
    (expression : String) :
    ((∃ pieces, Piece.ofText reading.skipBlanks expression.toList = .ok pieces ∧
        Sequence pieces) ↔
      ∃ pieces x, Piece.ofText reading.skipBlanks expression.toList = .ok pieces ∧
        Separated pieces ∧ solveIn A reading expression = .ok x) ∧
      (∀ x, solveIn A reading expression = .ok x →
        ∃ pieces tokens, Piece.ofText reading.skipBlanks expression.toList = .ok pieces ∧
          Token.ofPieces pieces = .ok tokens ∧ Balanced (word pieces.flatten) ∧
          tokens.countP Token.isValue = tokens.countP Token.isBinary + 1) ∧
      ∀ fault, solveIn A reading expression = .error fault →
        fault.kind ∈ [FaultKind.symbol, .numeral, .brackets, .arity, .consistency] := by
  refine ⟨⟨?_, ?_⟩, fun x hx ↦ ?_, fun fault hfault ↦ Equation.solveIn_fault hfault⟩
  · rintro ⟨pieces, hpieces, hsequence⟩
    obtain ⟨e, he⟩ := hsequence.derives reading.leftAssociative
    have hequation := he.ofText_eq_ok hpieces
    exact ⟨pieces, e.eval A, hpieces, hsequence.separated,
      (Equation.solveIn_of_ok hequation).trans (e.evaluate_postorder A)⟩
  · rintro ⟨pieces, x, hpieces, hseparated, hx⟩
    obtain ⟨found, tokens, hfound, htokens, hbalanced, hheight⟩ := balanced_of_value hx
    cases hpieces.symm.trans hfound
    exact ⟨pieces, hpieces, sequence_of_height hpieces htokens hbalanced hheight hseparated⟩
  · obtain ⟨pieces, tokens, hpieces, htokens, hbalanced, hheight⟩ := balanced_of_value hx
    rw [Rpn.height] at hheight
    exact ⟨pieces, tokens, hpieces, htokens, hbalanced, by omega⟩

/-- Two numerals with an operator behind them have the value of the operation. -/
theorem value_of_operator_behind (A : Arithmetic Binary64) {reading : Reading} {expression : String}
    {m n : Numeral} {o : BinaryOperator}
    (hpieces : Piece.ofText reading.skipBlanks expression.toList = .ok [m.text, n.text, o.symbol]) :
    solveIn A reading expression = .ok (A.binary o m.value n.value) := by
  have hreads : Token.Reads false [m.text, n.text, o.symbol]
      [.value m.value, .value n.value, .operator o.toOperator] false :=
    (Token.reads_numeral m).append ((Token.reads_numeral n).append (Token.reads_operator o))
  have htokens := hreads.after_eq
  have horder : Rpn.ofInfix reading.leftAssociative
      [.value m.value, .value n.value, .operator o.toOperator] =
        .ok [.value m.value, .value n.value, .operator o.toOperator] := by
    cases o <;> rfl
  have hequation : Equation.ofText reading expression =
      .ok ⟨expression, [.value m.value, .value n.value, .operator o.toOperator]⟩ := by
    simp only [Equation.ofText, hpieces, Token.ofPieces_eq_after, htokens, horder, bind,
      Except.bind, pure, Except.pure]
  calc solveIn A reading expression
      = Rpn.evaluate A [.value m.value, .value n.value, .operator o.toOperator] :=
        Equation.solveIn_of_ok hequation
    _ = .ok (A.binary o m.value n.value) := by cases o <;> rfl

/-- The postfix order of a sum is accepted, though it is no sequence of the grammar. -/
theorem postfix_has_value :
    (∃ x, solve ⟨true, false⟩ "2 3 +" = .ok x) ∧
      Piece.ofText true "2 3 +".toList = .ok [['2'], ['3'], ['+']] ∧
      ¬ Sequence [['2'], ['3'], ['+']] := by
  have hpieces : Piece.ofText true "2 3 +".toList = .ok [['2'], ['3'], ['+']] := by
    decide +kernel
  have hvalue : solve ⟨true, false⟩ "2 3 +" = .ok _ :=
    @value_of_operator_behind Binary64.arithmetic ⟨true, false⟩ "2 3 +" (.ofDigit '2' rfl)
      (.ofDigit '3' rfl) .plus hpieces
  refine ⟨⟨_, hvalue⟩, hpieces, fun h ↦ ?_⟩
  obtain ⟨hjuxtaposed, _⟩ := List.isChain_cons.mp h.separated
  exact hjuxtaposed ['3'] rfl ⟨.inr ⟨.ofDigit '2' rfl, rfl⟩, .inr ⟨.ofDigit '3' rfl, rfl⟩⟩

end Grammar

end Reckon
