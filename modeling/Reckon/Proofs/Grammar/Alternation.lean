import Reckon.Proofs.Grammar.Spelling
import Reckon.Proofs.Rpn.Height

/-!
# Alternation of operands and operators

Pieces alternate if operands and binary operators take turns, wherever brackets stand. Where no
operand follows directly on another, the height of the tokens is at most one, and it is one only
if the pieces alternate: each departure costs an operand that nothing makes up for. Alternating
pieces with balanced brackets are the sequences of the plain grammar.
-/

namespace Reckon.Grammar

open Piece

/-- Pieces in which operands and operators take turns, behind an operand or where one is due. -/
inductive Alternates : Bool → List Piece → Prop where
  | done : Alternates true []
  | numeral (n : Numeral) {rest : List Piece} (h : Alternates true rest) :
      Alternates false (n.text :: rest)
  | opening {rest : List Piece} (h : Alternates false rest) : Alternates false (['('] :: rest)
  | plus {rest : List Piece} (h : Alternates false rest) : Alternates false (['+'] :: rest)
  | minus {rest : List Piece} (h : Alternates false rest) : Alternates false (['-'] :: rest)
  | closing {rest : List Piece} (h : Alternates true rest) : Alternates true ([')'] :: rest)
  | operator (o : BinaryOperator) {rest : List Piece} (h : Alternates false rest) :
      Alternates true (o.symbol :: rest)

/-! ## From heights to alternation -/

theorem height_toOperator (o : BinaryOperator) :
    Rpn.height [(.operator o.toOperator : Token Binary64)] = -1 := by
  rw [Rpn.height_operator, o.arity_toOperator]
  rfl

/-- What the pieces behind a state owe: their height and the operand before them make at most
one, and exactly one only if they alternate. -/
def Owes (operand : Bool) (pieces : List Piece) (tokens : List (Token Binary64)) : Prop :=
  Rpn.height tokens + operand.toNat ≤ 1 ∧
    (Rpn.height tokens + operand.toNat = 1 → Alternates operand pieces)

theorem owes_nil (operand : Bool) : Owes operand [] [] := by
  cases operand with
  | false => exact ⟨by decide, fun h ↦ absurd h (by decide)⟩
  | true => exact ⟨by decide, fun _ ↦ .done⟩

/-- A piece in its turn keeps the balance. -/
theorem Owes.step {operand ends : Bool} {pieces rest : List Piece}
    {tokens others : List (Token Binary64)} (h : Owes ends rest others)
    (hheight : Rpn.height tokens + operand.toNat = ends.toNat)
    (halternates : Alternates ends rest → Alternates operand pieces) :
    Owes operand pieces (tokens ++ others) := by
  obtain ⟨hle, hone⟩ := h
  rw [Owes, Rpn.height_append]
  exact ⟨by omega, fun heq ↦ halternates (hone (by omega))⟩

/-- A piece out of its turn loses what nothing behind it can make up for. -/
theorem Owes.lose {operand ends : Bool} {pieces rest : List Piece}
    {tokens others : List (Token Binary64)} (h : Owes ends rest others)
    (hheight : Rpn.height tokens + operand.toNat < ends.toNat) :
    Owes operand pieces (tokens ++ others) := by
  obtain ⟨hle, _⟩ := h
  rw [Owes, Rpn.height_append]
  exact ⟨by omega, fun heq ↦ by omega⟩

/-- One piece either keeps the balance, in its turn, or loses, out of its turn. -/
theorem exists_turn {piece : Piece} (hformed : piece.Formed) {operand : Bool}
    (hfirst : operand = true → ¬ piece.BeginsOperand) :
    ∃ tokens ends, Token.Reads operand [piece] tokens ends ∧
      (ends = true → piece.EndsOperand) ∧
      ((Rpn.height tokens + operand.toNat = ends.toNat ∧
          ∀ rest, Alternates ends rest → Alternates operand (piece :: rest)) ∨
        Rpn.height tokens + operand.toNat < ends.toNat) := by
  cases hformed with
  | numeral n =>
    cases operand with
    | true => exact absurd (.inr ⟨n, rfl⟩) (hfirst rfl)
    | false =>
      refine ⟨_, _, Token.reads_numeral n, fun _ ↦ .inr ⟨n, rfl⟩, .inl ⟨?_, fun _ ↦ .numeral n⟩⟩
      simp
  | opening =>
    cases operand with
    | true => exact absurd (.inl rfl) (hfirst rfl)
    | false => exact ⟨_, _, Token.reads_opening, nofun, .inl ⟨by decide, fun _ ↦ .opening⟩⟩
  | closing =>
    refine ⟨_, _, Token.reads_closing, fun _ ↦ .inl rfl, ?_⟩
    cases operand with
    | true => exact .inl ⟨by decide, fun _ ↦ .closing⟩
    | false => exact .inr (by decide)
  | operator o =>
    cases operand with
    | true =>
      refine ⟨_, _, Token.reads_operator o, nofun, .inl ⟨?_, fun _ ↦ .operator o⟩⟩
      rw [height_toOperator]
      rfl
    | false =>
      by_cases hplus : o = .plus
      · subst hplus
        exact ⟨_, _, Token.reads_plus, nofun, .inl ⟨by decide, fun _ ↦ .plus⟩⟩
      · by_cases hminus : o = .minus
        · subst hminus
          exact ⟨_, _, Token.reads_minus, nofun, .inl ⟨by decide, fun _ ↦ .minus⟩⟩
        · refine ⟨_, _, Token.reads_operator_early hplus hminus, nofun, .inr ?_⟩
          rw [height_toOperator]
          decide

theorem owes_of_after {operand : Bool} {pieces : List Piece} {tokens : List (Token Binary64)}
    (hformed : ∀ piece ∈ pieces, piece.Formed) (hseparated : Separated pieces)
    (hfirst : operand = true → ∀ piece ∈ pieces.head?, ¬ piece.BeginsOperand)
    (h : Token.after operand pieces = .ok tokens) : Owes operand pieces tokens := by
  induction pieces generalizing operand tokens with
  | nil =>
    cases h
    exact owes_nil operand
  | cons piece rest ih =>
    obtain ⟨hpiece, hrest⟩ := List.forall_mem_cons.mp hformed
    obtain ⟨hnext, htail⟩ := List.isChain_cons.mp hseparated
    obtain ⟨here, ends, hreads, hends, hturn⟩ :=
      exists_turn hpiece fun hoperand ↦ hfirst hoperand piece rfl
    obtain ⟨others, hothers, rfl⟩ := hreads.split h
    have howes : Owes ends rest others := by
      refine ih hrest htail (fun hoperand next hmem hbegins ↦ ?_) hothers
      exact hnext next hmem ⟨hends hoperand, hbegins⟩
    rcases hturn with ⟨hheight, halternates⟩ | hheight
    · exact howes.step hheight (halternates rest)
    · exact howes.lose hheight

/-! ## From alternation to the grammar -/

open Reckon.Bracket

theorem word_cons_numeral (n : Numeral) (rest : List Piece) :
    word (n.text :: rest).flatten = word rest.flatten := by
  rw [List.flatten_cons, word_append, word_eq_nil fun c ↦ n.isNumeric_of_mem_text]
  rfl

theorem word_cons_symbol (o : BinaryOperator) (rest : List Piece) :
    word (o.symbol :: rest).flatten = word rest.flatten := by
  cases o <;> rfl

mutual

/-- Where an operand is due, alternating pieces start with one. -/
theorem exists_operand {pieces : List Piece} {depth : Nat} (h : Alternates false pieces)
    (hscan : scan depth (word pieces.flatten) = some 0) :
    ∃ front back, pieces = front ++ back ∧ Operand front ∧ Alternates true back ∧
      scan depth (word back.flatten) = some 0 := by
  cases h with
  | @numeral n rest h =>
    rw [word_cons_numeral] at hscan
    exact ⟨[n.text], rest, rfl, .numeral n, h, hscan⟩
  | @opening rest h =>
    obtain ⟨front, back, rfl, hfront, hback⟩ := @exists_sequence rest (depth + 1) h hscan
    rcases hback with ⟨rfl, hzero⟩ | ⟨outer, depth', rfl, hdepth, houter, hscanOuter⟩
    · exact absurd hzero (Nat.succ_ne_zero depth)
    · obtain rfl : depth = depth' := Nat.succ.inj hdepth
      exact ⟨['('] :: front ++ [[')']], outer, by simp, .group hfront, houter, hscanOuter⟩
  | @plus rest h =>
    obtain ⟨front, back, rfl, hfront, hback⟩ := exists_operand h hscan
    exact ⟨['+'] :: front, back, rfl, .plus hfront, hback⟩
  | @minus rest h =>
    obtain ⟨front, back, rfl, hfront, hback⟩ := exists_operand h hscan
    exact ⟨['-'] :: front, back, rfl, .minus hfront, hback⟩
termination_by (pieces.length, 0)

/-- Where an operand is due, alternating pieces start with a sequence, up to the end or to the
closing bracket of the group around it. -/
theorem exists_sequence {pieces : List Piece} {depth : Nat} (h : Alternates false pieces)
    (hscan : scan depth (word pieces.flatten) = some 0) :
    ∃ front back, pieces = front ++ back ∧ Sequence front ∧
      (back = [] ∧ depth = 0 ∨ ∃ outer depth', back = [')'] :: outer ∧ depth = depth' + 1 ∧
        Alternates true outer ∧ scan depth' (word outer.flatten) = some 0) := by
  obtain ⟨front, back, hpieces, hfront, hback, hscanBack⟩ := exists_operand h hscan
  have hlength := List.length_pos_of_ne_nil hfront.ne_nil
  cases hback with
  | done =>
    exact ⟨front, [], hpieces, .single hfront, .inl ⟨rfl, Option.some.inj hscanBack⟩⟩
  | @closing outer houter =>
    cases depth with
    | zero => cases hscanBack
    | succ depth =>
      exact ⟨front, _, hpieces, .single hfront, .inr ⟨outer, depth, rfl, rfl, houter, hscanBack⟩⟩
  | @operator o rest hrest =>
    rw [word_cons_symbol] at hscanBack
    obtain ⟨middle, last, rfl, hmiddle, hlast⟩ := exists_sequence hrest hscanBack
    exact ⟨front ++ o.symbol :: middle, last, by rw [hpieces]; simp, .more o hfront hmiddle, hlast⟩
termination_by (pieces.length, 1)

end

theorem Alternates.sequence {pieces : List Piece} (h : Alternates false pieces)
    (hbalanced : Balanced (word pieces.flatten)) : Sequence pieces := by
  obtain ⟨front, back, rfl, hfront, ⟨rfl, _⟩ | ⟨_, _, _, hdepth, _⟩⟩ :=
    exists_sequence h (balanced_iff_scan.mp hbalanced)
  · rwa [List.append_nil]
  · cases hdepth

end Reckon.Grammar
