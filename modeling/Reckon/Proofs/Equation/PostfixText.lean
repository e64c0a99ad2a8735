import Mathlib.Data.List.Forall2
import Reckon.Equation
import Reckon.Proofs.Decimal.Characters
import Reckon.Proofs.Rpn.Decoding

/-!
# What the postfix notation keeps

The name of a token is never empty, holds no space, and is the symbol of an operator for that
operator only. So the postfix notation has one word for each token and loses nothing but digits of
values: two equations have the same notation exactly if their tokens agree but for values with the
same text, and the tree of an equation can be built from the notation alone.
-/

namespace Reckon

/-- The words of a text, which its spaces keep apart. -/
def Text.words (text : List Char) : List (List Char) :=
  (text.splitOn ' ').filter (· ≠ [])

theorem Text.words_intercalate {words : List (List Char)} (hspace : ∀ word ∈ words, ' ' ∉ word)
    (hne : ∀ word ∈ words, word ≠ []) : Text.words ([' '].intercalate words) = words := by
  by_cases hnil : words = []
  · rw [hnil]
    rfl
  · rw [Text.words, List.splitOn_intercalate ' ' hspace hnil, List.filter_eq_self]
    exact fun word hword ↦ decide_eq_true (hne word hword)

theorem Operator.symbol_ne_generalText (o : Operator) (x : Binary64) :
    o.symbol ≠ x.generalText := by
  intro heq
  obtain ⟨c, hc, halphanum⟩ := x.exists_isAlphanum_generalText
  have hmark : Layout.isMark c = true := x.isMark_of_mem_generalText c hc
  -- A symbol is made of signs, but for the letter in front of the minus that negates.
  have hsymbol : o.symbol.all (fun d ↦ !(Layout.isMark d && d.isAlphanum)) = true := by
    cases o <;> rfl
  have hneither := List.all_eq_true.mp hsymbol c (heq ▸ hc)
  rw [hmark, halphanum] at hneither
  cases hneither

namespace Token

/-- Tokens that are the same operator, or values with the same text. -/
inductive Alike : Token Binary64 → Token Binary64 → Prop where
  | value {x y : Binary64} (h : x.generalText = y.generalText) : Alike (.value x) (.value y)
  | operator (o : Operator) : Alike (.operator o) (.operator o)

/-- The token that a word stands for; a value keeps its text. -/
def ofWord (word : List Char) : Token (List Char) :=
  match Operator.all.find? (·.symbol == word) with
  | some o => .operator o
  | none => .value word

variable {token other : Token Binary64} {tokens others : List (Token Binary64)}

theorem ofWord_name (token : Token Binary64) :
    ofWord token.name = token.map Binary64.generalText := by
  cases token with
  | value x =>
    have hnone : Operator.all.find? (·.symbol == x.generalText) = none := by
      apply List.find?_eq_none.mpr
      intro o _ hsymbol
      exact o.symbol_ne_generalText x (eq_of_beq hsymbol)
    rw [name, ofWord, hnone]
    rfl
  | operator o => cases o <;> rfl

theorem name_eq_iff : token.name = other.name ↔ Alike token other := by
  constructor
  · intro h
    cases token with
    | value x =>
      cases other with
      | value y => exact .value h
      | operator o => exact absurd h.symm (o.symbol_ne_generalText x)
    | operator o =>
      cases other with
      | value y => exact absurd h (o.symbol_ne_generalText y)
      | operator o' => exact Operator.symbol_injective h ▸ .operator o
  · intro h
    cases h with
    | value htext => exact htext
    | operator o => rfl

theorem name_eq_symbol_iff {o : Operator} : token.name = o.symbol ↔ token = .operator o := by
  have hname : o.symbol = (Token.operator o : Token Binary64).name := rfl
  rw [hname, name_eq_iff]
  constructor
  · intro h
    cases h
    rfl
  · rintro rfl
    exact .operator o

theorem name_ne_nil (token : Token Binary64) : token.name ≠ [] := by
  cases token with
  | value x =>
    obtain ⟨c, hc, _⟩ := x.exists_isAlphanum_generalText
    exact List.ne_nil_of_mem hc
  | operator o => cases o <;> exact List.cons_ne_nil _ _

theorem space_notMem_name (token : Token Binary64) : ' ' ∉ token.name := by
  cases token with
  | value x => exact fun hspace ↦ absurd (x.isMark_of_mem_generalText ' ' hspace) (by decide)
  | operator o => cases o <;> decide

theorem splitOn_names (h : tokens ≠ []) : (names tokens).splitOn ' ' = tokens.map name := by
  apply List.splitOn_intercalate
  · exact List.forall_mem_map.mpr fun token _ ↦ token.space_notMem_name
  · simpa using h

theorem words_names (tokens : List (Token Binary64)) :
    Text.words (names tokens) = tokens.map name := by
  apply Text.words_intercalate
  · exact List.forall_mem_map.mpr fun token _ ↦ token.space_notMem_name
  · exact List.forall_mem_map.mpr fun token _ ↦ token.name_ne_nil

theorem names_eq_iff : names tokens = names others ↔ List.Forall₂ Alike tokens others := by
  have hwords : names tokens = names others ↔ tokens.map name = others.map name := by
    constructor
    · intro h
      rw [← words_names, h, words_names]
    · intro h
      rw [names, h, names]
  rw [hwords, ← List.forall₂_eq_eq_eq, List.forall₂_map_left_iff, List.forall₂_map_right_iff]
  simp only [name_eq_iff]

end Token

/-- The tree that a postfix notation tells, with the texts of its values. -/
def Expr.ofPostfixText (text : String) : Except Fault (Expr (List Char)) :=
  Rpn.decode ((Text.words text.toList).map Token.ofWord)

namespace Equation

theorem words_postfixText (E : Equation) :
    Text.words E.postfixText.toList = E.postfixTokens.map Token.name := by
  rw [postfixText, String.toList_ofList, Token.words_names]

theorem ofPostfixText_postfixText (E : Equation) :
    Expr.ofPostfixText E.postfixText =
      (Rpn.decode E.postfixTokens).map (Expr.map Binary64.generalText) := by
  have hword : Token.ofWord ∘ Token.name = Token.map Binary64.generalText :=
    funext Token.ofWord_name
  rw [Expr.ofPostfixText, words_postfixText, List.map_map, hword, Rpn.decode_map]

theorem ofPostfixText_eq_ok_iff (E : Equation) (shape : Expr (List Char)) :
    Expr.ofPostfixText E.postfixText = .ok shape ↔
      ∃ e : Expr Binary64, e.postorder = E.postfixTokens ∧ e.map Binary64.generalText = shape := by
  simp only [← Rpn.decode_eq_ok_iff]
  rw [ofPostfixText_postfixText]
  cases Rpn.decode E.postfixTokens with
  | error fault => simp [Except.map]
  | ok e => simp [Except.map]

/-- The postfix notation loses nothing but digits of values. Its words are the names of the tokens,
one for each, and the words of operators stand where the operators do. So the notations of two
equations are equal exactly if their tokens are alike, and the notation tells the tree. -/
theorem postfixText_eq_iff_alike (E E' : Equation) :
    (E.postfixText = E'.postfixText ↔
        List.Forall₂ Token.Alike E.postfixTokens E'.postfixTokens) ∧
      Text.words E.postfixText.toList = E.postfixTokens.map Token.name ∧
      (E.postfixTokens ≠ [] →
        E.postfixText.toList.splitOn ' ' = E.postfixTokens.map Token.name) ∧
      (∀ (place : Nat) (o : Operator), (Text.words E.postfixText.toList)[place]? = some o.symbol ↔
        E.postfixTokens[place]? = some (.operator o)) ∧
      ∀ shape, Expr.ofPostfixText E.postfixText = .ok shape ↔
        ∃ e : Expr Binary64, e.postorder = E.postfixTokens ∧
          e.map Binary64.generalText = shape := by
  refine ⟨?_, E.words_postfixText, fun hne ↦ ?_, fun place o ↦ ?_, E.ofPostfixText_eq_ok_iff⟩
  · rw [postfixText, postfixText, String.ofList_inj, Token.names_eq_iff]
  · rw [postfixText, String.toList_ofList, Token.splitOn_names hne]
  · rw [words_postfixText, List.getElem?_map]
    simp only [Option.map_eq_some_iff, Token.name_eq_symbol_iff, exists_eq_right]

/-- Two numbers that differ in the seventh digit have one text. -/
theorem postfixText_eq_iff_alike_seventh :
    ∃ E E' : Equation, ofText ⟨true, false⟩ "1234567" = .ok E ∧
      ofText ⟨true, false⟩ "1234568" = .ok E' ∧ E.postfixTokens ≠ E'.postfixTokens ∧
      E.postfixText = E'.postfixText := by
  refine ⟨⟨"1234567", [.value (.finite false (1234567 <<< 32) (-32) (by decide))]⟩,
    ⟨"1234568", [.value (.finite false (1234568 <<< 32) (-32) (by decide))]⟩,
    ?_, ?_, by simp, ?_⟩
  · have hpieces : Piece.ofText true "1234567".toList = .ok ["1234567".toList] := by decide +kernel
    rw [ofText, hpieces]
    rfl
  · have hpieces : Piece.ofText true "1234568".toList = .ok ["1234568".toList] := by decide +kernel
    rw [ofText, hpieces]
    rfl
  · apply (postfixText_eq_iff_alike _ _).1.mpr
    exact .cons (.value (by decide +kernel)) .nil

end Equation

end Reckon
