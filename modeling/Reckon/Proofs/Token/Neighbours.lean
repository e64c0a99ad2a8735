import Reckon.Proofs.Grammar.Spelling
import Reckon.Proofs.Piece.Spacing

/-!
# Meaning by neighbours

Reading carries the latest token along to tell the two meanings of a sign apart, and this token
may stem from a piece far back, for a plus that says nothing leaves no token. Yet the piece right
before a sign decides: both end an operand, or neither does. So the tokens of a sequence are those
that each piece gives with a look at its left neighbour. A sequence is refused for the first of
its pieces that is neither a numeral nor a symbol.
-/

namespace Reckon

namespace Piece

/-- Whether a piece is taken for a number, which its first character tells. -/
def startsNumeric (piece : Piece) : Bool :=
  piece.head?.any isNumeric

/-- The pieces that can be read: numerals if they are taken for numbers, and otherwise symbols. -/
def Readable (piece : Piece) : Prop :=
  if piece.startsNumeric then piece.IsNumeral else piece.IsSymbol

instance (piece : Piece) : Decidable piece.Readable :=
  inferInstanceAs (Decidable (ite _ _ _))

/-- What is reported of a piece that cannot be read. -/
def fault (piece : Piece) : Fault :=
  if piece.startsNumeric then .malformedNumber piece else .unknownOperator piece

instance (piece : Piece) : Decidable piece.EndsOperand :=
  decidable_of_iff (piece = [')'] ∨ piece.IsNumeral)
    (or_congr_right (exists_congr fun _ ↦ eq_comm))

theorem readable_numeral (n : Numeral) : Readable n.text := by
  obtain ⟨c, cs, htext⟩ := List.exists_cons_of_ne_nil n.text_ne_nil
  have hc : isNumeric c = true := n.isNumeric_of_mem_text (htext ▸ List.mem_cons_self)
  have hstarts : startsNumeric n.text = true := by rw [startsNumeric, htext, List.head?_cons,
    Option.any_some, hc]
  rw [Readable, if_pos hstarts]
  exact ⟨n, rfl⟩

theorem readable_symbol {c : Char} (h : c ∈ symbols) : Readable [c] := by
  have hstarts : ¬ startsNumeric [c] = true := by
    rw [startsNumeric, List.head?_cons, Option.any_some, isNumeric_of_mem_symbols h]
    exact Bool.false_ne_true
  rw [Readable, if_neg hstarts]
  exact ⟨c, h, rfl⟩

/-- The pieces that can be read are those with a meaning. -/
theorem formed_iff_readable {piece : Piece} : piece.Formed ↔ piece.Readable := by
  constructor
  · intro h
    cases h with
    | numeral n => exact readable_numeral n
    | opening => exact readable_symbol (by decide)
    | closing => exact readable_symbol (by decide)
    | operator o =>
      obtain ⟨c, hc, hsymbol⟩ := exists_mem_symbols o
      rw [hsymbol]
      exact readable_symbol hc
  · intro h
    unfold Readable at h
    split at h
    · obtain ⟨n, rfl⟩ := h
      exact .numeral n
    · obtain ⟨c, hc, rfl⟩ := h
      exact .singleton hc

theorem text?_fault (piece : Piece) : piece.fault.text? = some piece := by
  unfold fault
  split <;> rfl

theorem kindName_fault (piece : Piece) : piece.fault.kind.name =
    if piece.startsNumeric then "NumberFormatError" else "ClassificationError" := by
  unfold fault
  split <;> rfl

end Piece

namespace Token

/-- The token that a piece gives, if any; a sign joins two operands only where one ends before. -/
def given? (joins : Bool) (piece : Piece) : Option (Token Binary64) :=
  if piece = ['+'] ∧ joins = false then none
  else if piece = ['-'] ∧ joins = false then some (.operator .negate)
  else
    match Numeral.ofText? piece with
    | some n => some (.value n.value)
    | none => (Operator.ofSymbol? piece).map .operator

/-- Whether the piece right before a place ends an operand. -/
def joinsAt (pieces : List Piece) : Nat → Bool
  | 0 => false
  | place + 1 => pieces[place]?.any fun piece ↦ decide piece.EndsOperand

/-- The token that the piece at a place gives. -/
def givenAt? (pieces : List Piece) (place : Nat) : Option (Token Binary64) :=
  pieces[place]?.bind (given? (joinsAt pieces place))

/-- The tokens that the pieces give one by one. -/
def givenTokens (pieces : List Piece) : List (Token Binary64) :=
  (List.range pieces.length).filterMap (givenAt? pieces)

theorem given?_numeral (joins : Bool) (n : Numeral) :
    given? joins n.text = some (.value n.value) := by
  have hplus : n.text ≠ ['+'] := (Piece.ne_text_of_mem_symbols (by decide) n).symm
  have hminus : n.text ≠ ['-'] := (Piece.ne_text_of_mem_symbols (by decide) n).symm
  rw [given?, if_neg fun h ↦ hplus h.1, if_neg fun h ↦ hminus h.1, Numeral.ofText?_text]

/-- A piece is read as the token that it gives, and the next one sees whether it ends an operand. -/
theorem reads_given {piece : Piece} (h : piece.Formed) (joins : Bool) :
    Reads joins [piece] (given? joins piece).toList (decide piece.EndsOperand) := by
  cases h with
  | numeral n =>
    rw [given?_numeral, decide_eq_true (.inr ⟨n, rfl⟩)]
    exact reads_numeral n
  | opening =>
    rw [decide_eq_false Piece.not_endsOperand_opening]
    exact reads_opening
  | closing =>
    rw [decide_eq_true (.inl rfl)]
    exact reads_closing
  | operator o =>
    rw [decide_eq_false (Piece.not_endsOperand_symbol o)]
    cases joins with
    | true =>
      have hgiven : given? true o.symbol = some (.operator o.toOperator) := by cases o <;> rfl
      rw [hgiven]
      exact reads_operator o
    | false =>
      by_cases hplus : o = .plus
      · subst hplus
        exact reads_plus
      · by_cases hminus : o = .minus
        · subst hminus
          exact reads_minus
        · have hgiven : given? false o.symbol = some (.operator o.toOperator) := by
            cases o <;> first | rfl | contradiction
          rw [hgiven]
          exact reads_operator_early hplus hminus

/-- From any place on, pieces are read as the tokens that they give. -/
theorem exists_reads_given {front back : List Piece} (h : ∀ piece ∈ back, piece.Formed) :
    ∃ ends, Reads (joinsAt (front ++ back) front.length) back
      ((List.range' front.length back.length).filterMap (givenAt? (front ++ back))) ends := by
  induction back generalizing front with
  | nil => exact ⟨_, reads_nil _⟩
  | cons piece rest ih =>
    obtain ⟨hpiece, hrest⟩ := List.forall_mem_cons.mp h
    have hplace : (front ++ piece :: rest)[front.length]? = some piece := by
      rw [List.getElem?_append_right (Nat.le_refl _), Nat.sub_self, List.getElem?_cons_zero]
    have hgiven : givenAt? (front ++ piece :: rest) front.length =
        given? (joinsAt (front ++ piece :: rest) front.length) piece := by
      rw [givenAt?, hplace, Option.bind_some]
    have hjoins : joinsAt (front ++ piece :: rest) (front.length + 1) =
        decide piece.EndsOperand := by
      rw [joinsAt, hplace, Option.any_some]
    obtain ⟨ends, hreads⟩ := @ih (front ++ [piece]) hrest
    rw [List.append_assoc, List.singleton_append, List.length_append, List.length_singleton,
      hjoins] at hreads
    have hsplit (places : List Nat) :
        (front.length :: places).filterMap (givenAt? (front ++ piece :: rest)) =
          (given? (joinsAt (front ++ piece :: rest) front.length) piece).toList ++
            places.filterMap (givenAt? (front ++ piece :: rest)) := by
      rw [List.filterMap_cons, hgiven]
      cases given? (joinsAt (front ++ piece :: rest) front.length) piece <;> rfl
    refine ⟨ends, ?_⟩
    rw [List.length_cons, List.range'_succ, hsplit]
    exact (reads_given hpiece _).append hreads

theorem ofPieces_of_formed {pieces : List Piece} (h : ∀ piece ∈ pieces, piece.Formed) :
    ofPieces pieces = .ok (givenTokens pieces) := by
  obtain ⟨ends, hreads⟩ := @exists_reads_given [] pieces h
  rw [givenTokens, List.range_eq_range']
  exact hreads.after_eq

/-- Whatever stands before it, a piece that cannot be read is reported. -/
theorem after_unreadable {operand : Bool} {piece : Piece} {rest : List Piece} (hne : piece ≠ [])
    (h : ¬ piece.Readable) : after operand (piece :: rest) = .error piece.fault := by
  obtain ⟨c, cs, rfl⟩ := List.exists_cons_of_ne_nil hne
  have hstarts : Piece.startsNumeric (c :: cs) = Piece.isNumeric c := rfl
  rw [Piece.Readable, hstarts] at h
  rw [after, following, Piece.fault, hstarts]
  cases hc : Piece.isNumeric c with
  | true =>
    rw [hc, if_pos rfl, Piece.isNumeral_iff, Option.not_isSome_iff_eq_none] at h
    rw [if_pos rfl, if_pos rfl, ofNumber, h]
    rfl
  | false =>
    have hunknown : Operator.ofSymbol? (c :: cs) = none := by
      rw [hc, if_neg Bool.false_ne_true, Piece.IsSymbol, ← Piece.isKnown_iff, Piece.isKnown,
        Option.not_isSome_iff_eq_none] at h
      exact h
    rw [if_neg Bool.false_ne_true, if_neg Bool.false_ne_true, ofSymbol, hunknown]
    rfl

theorem ofPieces_of_first_unreadable {front back : List Piece} {piece : Piece}
    (hfront : ∀ piece ∈ front, piece.Readable) (hne : piece ≠ []) (h : ¬ piece.Readable) :
    ofPieces (front ++ piece :: back) = .error piece.fault := by
  obtain ⟨tokens, ends, hreads, _⟩ :=
    exists_reads (fun piece hpiece ↦ Piece.formed_iff_readable.mpr (hfront piece hpiece)) false
  rw [ofPieces_eq_after, hreads, after_unreadable hne h]
  rfl

/-- Reading ends at the first piece that cannot be read, or in the tokens that the pieces give. -/
theorem ofPieces_eq {pieces : List Piece} (hne : ∀ piece ∈ pieces, piece ≠ []) :
    ofPieces pieces =
      match pieces.find? fun piece ↦ ¬ piece.Readable with
      | none => .ok (givenTokens pieces)
      | some piece => .error piece.fault := by
  cases hfind : pieces.find? fun piece ↦ ¬ piece.Readable with
  | none =>
    have hreadable : ∀ piece ∈ pieces, piece.Readable := by simpa using hfind
    exact ofPieces_of_formed fun piece hpiece ↦
      Piece.formed_iff_readable.mpr (hreadable piece hpiece)
  | some piece =>
    obtain ⟨hpiece, front, back, rfl, hfront⟩ := List.find?_eq_some_iff_append.mp hfind
    have hreadable : ∀ piece ∈ front, piece.Readable := by simpa using hfront
    exact ofPieces_of_first_unreadable hreadable (hne piece (by simp)) (by simpa using hpiece)

/-- Pieces are read exactly if all of them can be, and then as the tokens that they give with a
look at their left neighbours; otherwise the first that cannot be read is reported. -/
theorem ofPieces_gives_or_refuses {pieces : List Piece} (hne : ∀ piece ∈ pieces, piece ≠ []) :
    ((∃ tokens, ofPieces pieces = .ok tokens) ↔ ∀ piece ∈ pieces, piece.Readable) ∧
      (∀ tokens, ofPieces pieces = .ok tokens → tokens = givenTokens pieces) ∧
      (∀ fault, ofPieces pieces = .error fault ↔
        ∃ piece, pieces.find? (fun piece ↦ ¬ piece.Readable) = some piece ∧
          piece.fault = fault) ∧
      ∀ piece : Piece, piece.fault.text? = some piece ∧
        piece.fault.kind.name =
          if piece.startsNumeric then "NumberFormatError" else "ClassificationError" := by
  have hall : (∀ piece ∈ pieces, piece.Readable) ↔
      pieces.find? (fun piece ↦ ¬ piece.Readable) = none := by
    simp
  rw [hall, ofPieces_eq hne]
  refine ⟨?_, ?_, ?_, fun piece ↦ ⟨piece.text?_fault, piece.kindName_fault⟩⟩ <;>
    cases pieces.find? fun piece ↦ ¬ piece.Readable <;> simp [eq_comm]

/-- Signs in a row, of which one joins two operands. -/
def signs : List Piece :=
  [['-'], ['+'], ['-'], ['2'], ['-'], ['+'], ['-'], ['('], ['+'], ['3'], [')']]

theorem ofPieces_gives_or_refuses_signs :
    ((∀ piece ∈ signs, piece ≠ []) ∧ ∀ piece ∈ signs ++ [['3', '.'], ['x']], piece ≠ []) ∧
      ofPieces signs = .ok [.operator .negate, .operator .negate,
        .value (Numeral.ofDigit '2' rfl).value, .operator .minus, .operator .negate,
        .operator .openBracket, .value (Numeral.ofDigit '3' rfl).value,
        .operator .closeBracket] ∧
      ofPieces (signs ++ [['3', '.'], ['x']]) = .error (.malformedNumber ['3', '.']) := by
  have hne : ∀ piece ∈ signs, piece ≠ [] := by decide
  have hlonger : ∀ piece ∈ signs ++ [['3', '.'], ['x']], piece ≠ [] := by decide
  obtain ⟨hreads, hgiven, _⟩ := ofPieces_gives_or_refuses hne
  obtain ⟨tokens, htokens⟩ := hreads.mpr (by decide)
  obtain ⟨_, _, hrefuses, _⟩ := ofPieces_gives_or_refuses hlonger
  refine ⟨⟨hne, hlonger⟩, ?_, (hrefuses _).mpr ⟨['3', '.'], by decide, rfl⟩⟩
  rw [htokens, hgiven tokens htokens]
  rfl

end Token

end Reckon
