import Reckon.Proofs.Piece.Spacing
import Reckon.Proofs.Rpn.Group

/-!
# Brackets around a part or the whole

A group may stand wherever an operand may, with the same outcome: its order takes the place of
the operand, and its value that of the operand's. This needs no sense of what stands around it.
A text in brackets is cut, read and brought into order as the text itself.
-/

namespace Reckon

namespace Piece

theorem ofText_bracketed {skipBlanks : Bool} {text : List Char} {pieces : List Piece}
    (h : ofText skipBlanks text = .ok pieces) :
    ofText skipBlanks ('(' :: text ++ [')']) = .ok (['('] :: pieces ++ [[')']]) := by
  obtain ⟨hcuts, _⟩ := ofText_eq_ok_iff.mp h
  have hparted : Parted text [')'] := by
    rintro _ _ _ ⟨⟩
    exact .inr (isNumeric_of_mem_symbols (by decide))
  have hclosed : Cuts skipBlanks (text ++ [')']) (pieces ++ [[')']]) :=
    hcuts.append (.symbol (by decide) .nil) hparted
  exact ofText_eq_ok_iff.mpr ⟨.symbol (by decide) hclosed, List.cons_ne_nil _ _⟩

end Piece

namespace Token

theorem ofPieces_bracketed {pieces : List Piece} {tokens : List (Token Binary64)}
    (hformed : ∀ piece ∈ pieces, piece.Formed) (h : ofPieces pieces = .ok tokens) :
    ofPieces (['('] :: pieces ++ [[')']]) = .ok (Rpn.bracketed tokens) := by
  obtain ⟨others, ends, hreads, _⟩ := exists_reads hformed false
  obtain rfl : others = tokens := Except.ok.inj (hreads.after_eq.symm.trans h)
  have hgroup : Reads false (['('] :: pieces ++ [[')']]) (Rpn.bracketed others) true :=
    reads_opening.append (hreads.append reads_closing)
  exact hgroup.after_eq

end Token

namespace Equation

/-- The stages of building an equation. -/
theorem exists_of_ofText {reading : Reading} {expression : String} {equation : Equation}
    (h : ofText reading expression = .ok equation) :
    ∃ pieces tokens order, Piece.ofText reading.skipBlanks expression.toList = .ok pieces ∧
      Token.ofPieces pieces = .ok tokens ∧
      Rpn.ofInfix reading.leftAssociative tokens = .ok order ∧ equation = ⟨expression, order⟩ := by
  obtain ⟨pieces, hpieces, hread⟩ := Rpn.exists_of_bind_eq_ok h
  obtain ⟨tokens, htokens, hordered⟩ := Rpn.exists_of_bind_eq_ok hread
  obtain ⟨order, horder, hequation⟩ := Rpn.exists_of_bind_eq_ok hordered
  exact ⟨pieces, tokens, order, hpieces, htokens, horder, (Except.ok.inj hequation).symm⟩

/-- A text in brackets has the postfix order of the text. -/
theorem ofText_bracketed {reading : Reading} {expression : String} {equation : Equation}
    (h : ofText reading expression = .ok equation) :
    ofText reading ("(" ++ expression ++ ")") =
      .ok ⟨"(" ++ expression ++ ")", equation.postfixTokens⟩ := by
  obtain ⟨pieces, tokens, order, hpieces, htokens, horder, hequation⟩ := exists_of_ofText h
  have hformed : ∀ piece ∈ pieces, piece.Formed :=
    Token.formed_of_ofPieces (Piece.ofText_eq_ok_iff.mp hpieces).1.formed_or_malformed htokens
  have htext : ("(" ++ expression ++ ")").toList = '(' :: expression.toList ++ [')'] := by
    simp
  simp only [ofText, htext, Piece.ofText_bracketed hpieces,
    Token.ofPieces_bracketed hformed htokens, Rpn.ofInfix_bracketed horder, hequation, bind,
    Except.bind, pure, Except.pure]

end Equation

namespace Rpn

/-- A balanced group is an operand: it stands for its order, and for its value if it has one, in
any surroundings. Around a whole text brackets change nothing. -/
theorem group_acts_as_operand (leftAssociative : Bool) :
    (∀ tokens : List (Token Binary64), Bracket.Balanced (Token.brackets tokens) →
      ∃ order, ofInfix leftAssociative tokens = .ok order ∧
        ofInfix leftAssociative (bracketed tokens) = .ok order ∧
        (∀ front back : List (Token Binary64),
          (∃ fault, fault.kind = .brackets ∧
            ofInfix leftAssociative (front ++ bracketed tokens ++ back) = .error fault ∧
            ∀ v, ofInfix leftAssociative (front ++ [.value v] ++ back) = .error fault) ∨
          ∃ before behind, before.filter Token.isValue = front.filter Token.isValue ∧
            behind.filter Token.isValue = back.filter Token.isValue ∧
            ofInfix leftAssociative (front ++ bracketed tokens ++ back) =
              .ok (before ++ order ++ behind) ∧
            ∀ v, ofInfix leftAssociative (front ++ [.value v] ++ back) =
              .ok (before ++ [.value v] ++ behind)) ∧
        ∀ (A : Arithmetic Binary64) (x : Binary64), evaluate A order = .ok x →
          ∀ front back : List (Token Binary64),
            (ofInfix leftAssociative (front ++ bracketed tokens ++ back)).bind (evaluate A) =
              (ofInfix leftAssociative (front ++ [.value x] ++ back)).bind (evaluate A)) ∧
    ∀ (skipBlanks : Bool) (expression : String) (equation : Equation),
      Equation.ofText ⟨skipBlanks, leftAssociative⟩ expression = .ok equation →
        Equation.ofText ⟨skipBlanks, leftAssociative⟩ ("(" ++ expression ++ ")") =
          .ok ⟨"(" ++ expression ++ ")", equation.postfixTokens⟩ := by
  refine ⟨fun tokens hbalanced ↦ ?_, fun _ _ _ ↦ Equation.ofText_bracketed⟩
  obtain ⟨order, horder, _⟩ := ofInfix_of_balanced leftAssociative hbalanced
  have hgroup : Settles leftAssociative (bracketed tokens) order := settles_bracketed horder
  have hvalue (v : Binary64) : Settles leftAssociative [.value v] [.value v] := settles_value v
  refine ⟨order, horder, ofInfix_bracketed horder, ?_, ?_⟩
  · intro front back
    rcases ofInfix_around leftAssociative front back with
      ⟨fault, hfault⟩ | ⟨before, behind, hbefore, hbehind, horders⟩
    · have herror := hfault _ _ hgroup
      exact .inl ⟨fault, kind_of_ofInfix_error herror, herror, fun v ↦ hfault _ _ (hvalue v)⟩
    · exact .inr ⟨before, behind, hbefore, hbehind, horders _ _ hgroup,
        fun v ↦ horders _ _ (hvalue v)⟩
  · intro A x hx front back
    rcases ofInfix_around leftAssociative front back with
      ⟨fault, hfault⟩ | ⟨before, behind, _, _, horders⟩
    · rw [hfault _ _ hgroup, hfault _ _ (hvalue x)]
    · rw [horders _ _ hgroup, horders _ _ (hvalue x)]
      exact evaluate_replace A hx before behind

/-- The operand that a digit is. -/
def digit (c : Char) (h : c.isDigit = true) : Token Binary64 :=
  .value (Numeral.ofDigit c h).value

theorem isDigit_two : '2'.isDigit = true :=
  rfl

theorem isDigit_three : '3'.isDigit = true :=
  rfl

/-- The tokens of `2-3`. -/
def difference : List (Token Binary64) :=
  [digit '2' isDigit_two, .operator .minus, digit '3' isDigit_three]

theorem group_acts_as_operand_difference :
    (Bracket.Balanced (Token.brackets difference) ∧
      (∀ A : Arithmetic Binary64,
        evaluate A [digit '2' rfl, digit '3' rfl, .operator .minus] =
          .ok (A.sub (Numeral.ofDigit '2' rfl).value (Numeral.ofDigit '3' rfl).value)) ∧
      Equation.ofText ⟨true, false⟩ "2-3" =
        .ok ⟨"2-3", [digit '2' rfl, digit '3' rfl, .operator .minus]⟩) ∧
      (∀ A : Arithmetic Binary64,
        (ofInfix false ([digit '4' rfl, .operator .times] ++ bracketed difference ++
            [.operator .power, digit '5' rfl])).bind (evaluate A) =
          (ofInfix false ([digit '4' rfl, .operator .times] ++
            [.value (A.sub (Numeral.ofDigit '2' rfl).value (Numeral.ofDigit '3' rfl).value)] ++
              [.operator .power, digit '5' rfl])).bind (evaluate A)) ∧
      Equation.ofText ⟨true, false⟩ "(2-3)" =
        .ok ⟨"(2-3)", [digit '2' rfl, digit '3' rfl, .operator .minus]⟩ := by
  have hbalanced : Bracket.Balanced (Token.brackets difference) :=
    Bracket.balanced_iff_scan.mpr rfl
  have hvalue (A : Arithmetic Binary64) :
      evaluate A [digit '2' rfl, digit '3' rfl, .operator .minus] =
        .ok (A.sub (Numeral.ofDigit '2' rfl).value (Numeral.ofDigit '3' rfl).value) := rfl
  have hequation : Equation.ofText ⟨true, false⟩ "2-3" =
      .ok ⟨"2-3", [digit '2' rfl, digit '3' rfl, .operator .minus]⟩ := by
    have hpieces : Piece.ofText true "2-3".toList = .ok [['2'], ['-'], ['3']] := by decide +kernel
    rw [Equation.ofText, hpieces]
    rfl
  obtain ⟨order, horder, _, _, hplace⟩ := (group_acts_as_operand false).1 difference hbalanced
  have hpostfix : ofInfix false difference =
      .ok [digit '2' rfl, digit '3' rfl, .operator .minus] := rfl
  obtain rfl := Except.ok.inj (horder.symm.trans hpostfix)
  exact ⟨⟨hbalanced, hvalue, hequation⟩, fun A ↦ hplace A _ (hvalue A) _ _,
    (group_acts_as_operand false).2 true "2-3" _ hequation⟩

end Rpn

end Reckon
