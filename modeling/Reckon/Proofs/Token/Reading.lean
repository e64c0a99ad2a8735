import Reckon.Grammar
import Reckon.Proofs.Bracket
import Reckon.Proofs.Piece.Cut

/-!
# Reading pieces

What a sequence of pieces means depends on what stands before it only through whether an operand
ends there. So each kind of piece has one equation for either state. Pieces that are numerals or
symbols can always be read, and reading keeps the brackets; any other run of numeric characters
is refused, the first one before all others.
-/

namespace Reckon

theorem Numeral.text_ne_nil (n : Numeral) : n.text ≠ [] := by
  unfold text
  split
  · exact n.whole_ne_nil
  · simp

theorem Numeral.isNumeric_of_mem_text (n : Numeral) {c : Char} (h : c ∈ n.text) :
    Piece.isNumeric c = true := by
  have hdigit {c : Char} (hc : c ∈ n.whole ++ n.fraction) : Piece.isNumeric c = true := by
    simp [Piece.isNumeric, Text.isDigit_of_ascii (n.isDigit_of_mem c hc)]
  unfold text at h
  split at h
  · exact hdigit (List.mem_append_left _ h)
  · next d ds hfraction =>
    rcases List.mem_append.mp h with h | h
    · exact hdigit (List.mem_append_left _ h)
    · rcases List.mem_cons.mp h with rfl | h
      · decide
      · exact hdigit (List.mem_append_right _ (hfraction ▸ h))

/-- The pieces that have a meaning. -/
inductive Piece.Formed : Piece → Prop where
  | numeral (n : Numeral) : Formed n.text
  | opening : Formed ['(']
  | closing : Formed [')']
  | operator (o : BinaryOperator) : Formed o.symbol

/-- Runs of numeric characters that are no numerals. -/
def Piece.Malformed (run : Piece) : Prop :=
  run ≠ [] ∧ (∀ c ∈ run, isNumeric c = true) ∧ Numeral.ofText? run = none

theorem Piece.Formed.singleton {c : Char} (h : c ∈ symbols) : Formed [c] := by
  simp only [symbols, List.mem_cons, List.not_mem_nil, or_false] at h
  rcases h with rfl | rfl | rfl | rfl | rfl | rfl | rfl | rfl
  · exact .opening
  · exact .closing
  · exact .operator .plus
  · exact .operator .minus
  · exact .operator .times
  · exact .operator .divide
  · exact .operator .power
  · exact .operator .remainder

/-- A run is a numeral or malformed. -/
theorem Piece.formed_or_malformed {run : Piece} (hne : run ≠ [])
    (hrun : ∀ c ∈ run, isNumeric c = true) : Formed run ∨ Malformed run := by
  cases hread : Numeral.ofText? run with
  | none => exact .inr ⟨hne, hrun, hread⟩
  | some n =>
    rw [← Numeral.ofText?_eq_some_iff.mp hread]
    exact .inl (.numeral n)

theorem Piece.Cuts.formed_or_malformed {skipBlanks : Bool} {text : List Char}
    {pieces : List Piece} (h : Cuts skipBlanks text pieces) :
    ∀ piece ∈ pieces, piece.Formed ∨ piece.Malformed := by
  induction h with
  | nil => exact fun piece hpiece ↦ absurd hpiece List.not_mem_nil
  | run hne hrun hrest h ih =>
    exact List.forall_mem_cons.mpr ⟨Piece.formed_or_malformed hne hrun, ih⟩
  | blank hskip hblank h ih => exact ih
  | symbol hsymbol h ih => exact List.forall_mem_cons.mpr ⟨.inl (.singleton hsymbol), ih⟩

namespace Token

theorem placed?_congr {α : Type} {p q : Option (Token α)} (h : endsOperand p = endsOperand q)
    (o : Operator) : placed? p o = placed? q o := by
  cases o <;> simp only [placed?, h]

theorem following_congr {p q : Option (Token Binary64)} (h : endsOperand p = endsOperand q)
    (pieces : List Piece) : following p pieces = following q pieces := by
  induction pieces generalizing p q with
  | nil => rfl
  | cons piece rest ih =>
    cases piece with
    | nil => rfl
    | cons c cs => simp only [following, placed?_congr h, ih h]

/-- A token that stands for all that end an operand, or for all that do not. -/
def standing (operand : Bool) : Option (Token Binary64) :=
  if operand then some (.operator .closeBracket) else none

/-- The tokens of pieces behind an operand, or where an operand is due. -/
def after (operand : Bool) (pieces : List Piece) : Except Fault (List (Token Binary64)) :=
  following (standing operand) pieces

theorem following_eq_after (previous : Option (Token Binary64)) (pieces : List Piece) :
    following previous pieces = after (endsOperand previous) pieces := by
  refine following_congr ?_ pieces
  cases endsOperand previous <;> rfl

theorem ofPieces_eq_after (pieces : List Piece) : ofPieces pieces = after false pieces := rfl

section Equations

variable {operand : Bool} {rest : List Piece}

@[simp] theorem after_nil : after operand [] = .ok [] := rfl

theorem following_run {previous : Option (Token Binary64)} {run : Piece} (hne : run ≠ [])
    (hrun : ∀ c ∈ run, Piece.isNumeric c = true) :
    following previous (run :: rest) = do
      let token ← ofNumber run
      return token :: (← following (some token) rest) := by
  cases run with
  | nil => exact absurd rfl hne
  | cons c cs => rw [following, if_pos (hrun c List.mem_cons_self)]

theorem following_symbol {previous : Option (Token Binary64)} {o : Operator} (ho : o ≠ .negate) :
    following previous (o.symbol :: rest) =
      match placed? previous o with
      | none => following previous rest
      | some o' => (following (some (.operator o')) rest).map (.operator o' :: ·) := by
  have hread : ofSymbol o.symbol = .ok o := by
    rw [ofSymbol, Operator.ofSymbol?_eq_some_iff.mpr ⟨ho, rfl⟩]
  have hsplit : ∃ c cs, o.symbol = c :: cs ∧ Piece.isNumeric c = false := by
    cases o <;> exact ⟨_, _, rfl, by decide⟩
  obtain ⟨c, cs, hsymbol, hc⟩ := hsplit
  rw [hsymbol] at hread ⊢
  rw [following, if_neg (by simp [hc]), hread]
  cases hplaced : placed? previous o with
  | none => simp [bind, Except.bind, hplaced]
  | some o' =>
    simp only [bind, Except.bind, hplaced]
    cases following (some (.operator o')) rest <;> rfl

/-- A symbol in either state; only a closing bracket ends an operand. -/
theorem after_symbol (o : Operator) (ho : o ≠ .negate) :
    after operand (o.symbol :: rest) =
      match placed? (standing operand) o with
      | none => after operand rest
      | some o' => (after (o' == .closeBracket) rest).map (.operator o' :: ·) := by
  rw [after, following_symbol ho]
  cases placed? (standing operand) o with
  | none => rfl
  | some o' => simp only [following_eq_after (some (.operator o')), endsOperand]

theorem after_numeral (n : Numeral) :
    after operand (n.text :: rest) = (after true rest).map (.value n.value :: ·) := by
  have hread : ofNumber n.text = .ok (.value n.value) := by
    rw [ofNumber, Numeral.ofText?_text]
  rw [after, following_run n.text_ne_nil fun c ↦ n.isNumeric_of_mem_text, hread]
  simp only [bind, Except.bind, pure, Except.pure, following_eq_after (some (.value n.value)),
    endsOperand]
  cases after true rest <;> rfl

theorem after_malformed {run : Piece} (h : run.Malformed) :
    after operand (run :: rest) = .error (.malformedNumber run) := by
  obtain ⟨hne, hrun, hread⟩ := h
  rw [after, following_run hne hrun, ofNumber, hread]
  rfl

theorem after_opening :
    after operand (['('] :: rest) = (after false rest).map (.operator .openBracket :: ·) :=
  after_symbol .openBracket (by decide)

theorem after_closing :
    after operand ([')'] :: rest) = (after true rest).map (.operator .closeBracket :: ·) :=
  after_symbol .closeBracket (by decide)

theorem after_operator (o : BinaryOperator) :
    after true (o.symbol :: rest) = (after false rest).map (.operator o.toOperator :: ·) := by
  have hne : o.toOperator ≠ .negate := by cases o <;> decide
  rw [BinaryOperator.symbol, after_symbol o.toOperator hne]
  cases o <;> rfl

/-- Where an operand is due, a plus says nothing. -/
theorem after_plus : after false (['+'] :: rest) = after false rest :=
  after_symbol .plus (by decide)

/-- Where an operand is due, a minus negates. -/
theorem after_minus :
    after false (['-'] :: rest) = (after false rest).map (.operator .negate :: ·) :=
  after_symbol .minus (by decide)

/-- Only signs change their meaning where an operand is due. -/
theorem after_operator_early {o : BinaryOperator} (hplus : o ≠ .plus) (hminus : o ≠ .minus) :
    after false (o.symbol :: rest) = (after false rest).map (.operator o.toOperator :: ·) := by
  have hne : o.toOperator ≠ .negate := by cases o <;> decide
  rw [BinaryOperator.symbol, after_symbol o.toOperator hne]
  cases o <;> first | rfl | contradiction

end Equations

/-- In a state, pieces are read as tokens and leave another state, whatever follows them. -/
def Reads (operand : Bool) (pieces : List Piece) (tokens : List (Token Binary64)) (ends : Bool) :
    Prop :=
  ∀ rest, after operand (pieces ++ rest) = (after ends rest).map (tokens ++ ·)

section Reads

variable {operand middle ends : Bool} {front back : List Piece}
  {tokens others : List (Token Binary64)}

theorem reads_nil (operand : Bool) : Reads operand [] [] operand := by
  intro rest
  rw [List.nil_append]
  cases after operand rest <;> rfl

theorem Reads.append (hfront : Reads operand front tokens middle)
    (hback : Reads middle back others ends) :
    Reads operand (front ++ back) (tokens ++ others) ends := by
  intro rest
  rw [List.append_assoc, hfront, hback]
  cases after ends rest with
  | error fault => rfl
  | ok last => simp only [Except.map, List.append_assoc]

theorem Reads.after_eq (h : Reads operand front tokens ends) : after operand front = .ok tokens := by
  have hnil := h []
  rw [List.append_nil, after_nil] at hnil
  rw [hnil]
  simp only [Except.map, List.append_nil]

theorem Reads.split {rest : List Piece} (h : Reads operand front tokens ends)
    (hread : after operand (front ++ rest) = .ok others) :
    ∃ last, after ends rest = .ok last ∧ others = tokens ++ last := by
  rw [h] at hread
  cases hrest : after ends rest with
  | error fault =>
    rw [hrest] at hread
    cases hread
  | ok last =>
    rw [hrest] at hread
    cases hread
    exact ⟨last, rfl, rfl⟩

theorem reads_numeral (n : Numeral) : Reads operand [n.text] [.value n.value] true :=
  fun _ ↦ after_numeral n

theorem reads_opening : Reads operand [['(']] [.operator .openBracket] false :=
  fun _ ↦ after_opening

theorem reads_closing : Reads operand [[')']] [.operator .closeBracket] true :=
  fun _ ↦ after_closing

theorem reads_operator (o : BinaryOperator) :
    Reads true [o.symbol] [.operator o.toOperator] false :=
  fun _ ↦ after_operator o

theorem reads_plus : Reads false [['+']] [] false := by
  intro rest
  rw [List.singleton_append, after_plus]
  cases after false rest <;> rfl

theorem reads_minus : Reads false [['-']] [.operator .negate] false :=
  fun _ ↦ after_minus

theorem reads_operator_early {o : BinaryOperator} (hplus : o ≠ .plus) (hminus : o ≠ .minus) :
    Reads false [o.symbol] [.operator o.toOperator] false :=
  fun _ ↦ after_operator_early hplus hminus

end Reads

end Token

namespace Bracket

/-- Numbers hold no brackets. -/
theorem word_eq_nil {text : List Char} (h : ∀ c ∈ text, Piece.isNumeric c = true) :
    word text = [] := by
  refine List.filterMap_eq_nil_iff.mpr fun c hc ↦ ?_
  have hnumeric := h c hc
  unfold ofChar?
  split
  · revert hnumeric
    decide
  · revert hnumeric
    decide
  · rfl

end Bracket

namespace Token

/-- A piece with a meaning can be read in either state, and its brackets are kept. -/
theorem exists_reads_piece {piece : Piece} (h : piece.Formed) (operand : Bool) :
    ∃ tokens ends, Reads operand [piece] tokens ends ∧
      brackets tokens = Bracket.word piece := by
  cases h with
  | numeral n =>
    exact ⟨_, _, reads_numeral n, (Bracket.word_eq_nil fun c ↦ n.isNumeric_of_mem_text).symm⟩
  | opening => exact ⟨_, _, reads_opening, rfl⟩
  | closing => exact ⟨_, _, reads_closing, rfl⟩
  | operator o =>
    have hword : Bracket.word o.symbol = [] := by cases o <;> rfl
    have hbrackets : brackets [(.operator o.toOperator : Token Binary64)] = [] := by
      cases o <;> rfl
    rw [hword]
    cases operand with
    | true => exact ⟨_, _, reads_operator o, hbrackets⟩
    | false =>
      by_cases hplus : o = .plus
      · subst hplus
        exact ⟨_, _, reads_plus, rfl⟩
      · by_cases hminus : o = .minus
        · subst hminus
          exact ⟨_, _, reads_minus, rfl⟩
        · exact ⟨_, _, reads_operator_early hplus hminus, hbrackets⟩

theorem exists_reads {pieces : List Piece} (h : ∀ piece ∈ pieces, piece.Formed) (operand : Bool) :
    ∃ tokens ends, Reads operand pieces tokens ends ∧
      brackets tokens = Bracket.word pieces.flatten := by
  induction pieces generalizing operand with
  | nil => exact ⟨[], operand, reads_nil operand, rfl⟩
  | cons piece rest ih =>
    obtain ⟨hpiece, hrest⟩ := List.forall_mem_cons.mp h
    obtain ⟨tokens, middle, hreads, hbrackets⟩ := exists_reads_piece hpiece operand
    obtain ⟨others, ends, hreadsRest, hbracketsRest⟩ := ih hrest middle
    refine ⟨tokens ++ others, ends, hreads.append hreadsRest, ?_⟩
    rw [brackets_append, hbrackets, hbracketsRest, List.flatten_cons, Bracket.word_append]

/-- The first malformed run is the fault of a sequence. -/
theorem ofPieces_malformed {front back : List Piece} {run : Piece}
    (hfront : ∀ piece ∈ front, piece.Formed) (hrun : run.Malformed) :
    ofPieces (front ++ run :: back) = .error (.malformedNumber run) := by
  obtain ⟨tokens, ends, hreads, _⟩ := exists_reads hfront false
  rw [ofPieces_eq_after, hreads, after_malformed hrun]
  rfl

/-- Unless all pieces have a meaning, one of them is the first malformed run. -/
theorem formed_or_first_malformed {pieces : List Piece}
    (h : ∀ piece ∈ pieces, piece.Formed ∨ piece.Malformed) :
    (∀ piece ∈ pieces, piece.Formed) ∨
      ∃ front run back, pieces = front ++ run :: back ∧ (∀ piece ∈ front, piece.Formed) ∧
        run.Malformed := by
  induction pieces with
  | nil => exact .inl fun piece hpiece ↦ absurd hpiece List.not_mem_nil
  | cons piece rest ih =>
    obtain ⟨hpiece | hpiece, hrest⟩ := List.forall_mem_cons.mp h
    · rcases ih hrest with hall | ⟨front, run, back, rfl, hfront, hrun⟩
      · exact .inl (List.forall_mem_cons.mpr ⟨hpiece, hall⟩)
      · exact .inr ⟨piece :: front, run, back, rfl, List.forall_mem_cons.mpr ⟨hpiece, hfront⟩, hrun⟩
    · exact .inr ⟨[], piece, rest, rfl, fun _ hmem ↦ absurd hmem List.not_mem_nil, hpiece⟩

/-- Of pieces that are read, none is malformed. -/
theorem formed_of_ofPieces {pieces : List Piece} {tokens : List (Token Binary64)}
    (hpieces : ∀ piece ∈ pieces, piece.Formed ∨ piece.Malformed)
    (h : ofPieces pieces = .ok tokens) : ∀ piece ∈ pieces, piece.Formed := by
  rcases formed_or_first_malformed hpieces with hall | ⟨front, run, back, rfl, hfront, hrun⟩
  · exact hall
  · rw [ofPieces_malformed hfront hrun] at h
    cases h

end Token

end Reckon
