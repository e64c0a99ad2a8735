import Mathlib.Data.List.Basic
import Reckon.ExpressionFile

/-!
# Expressions in lines

A text without ends of lines goes into the line that is begun, and a line feed behind it ends the
line. So a file that holds expressions in lines, the last of them ended or not, gives these
expressions back, unless some are blank.
-/

namespace Reckon

namespace Text

/-- A text in one line. -/
def Unbroken (text : List Char) : Prop :=
  '\n' ∉ text ∧ '\r' ∉ text

theorem unbroken_cons_iff {c : Char} {rest : List Char} :
    Unbroken (c :: rest) ↔ (c ≠ '\n' ∧ c ≠ '\r') ∧ Unbroken rest := by
  simp only [Unbroken, List.mem_cons, not_or, ne_comm (b := c)]
  exact and_and_and_comm

theorem linesFrom_cons {c : Char} (hfeed : c ≠ '\n') (hreturn : c ≠ '\r') (begun rest : List Char) :
    linesFrom begun (c :: rest) = linesFrom (c :: begun) rest := by
  rw [linesFrom]
  · rintro tail rfl
    exact absurd rfl hreturn
  · exact hreturn
  · exact hfeed

theorem linesFrom_append {line : List Char} (h : Unbroken line) (begun rest : List Char) :
    linesFrom begun (line ++ rest) = linesFrom (line.reverse ++ begun) rest := by
  induction line generalizing begun with
  | nil => rfl
  | cons c line ih =>
    obtain ⟨hc, hline⟩ := unbroken_cons_iff.mp h
    rw [List.cons_append, linesFrom_cons hc.1 hc.2, ih hline, List.reverse_cons, List.append_assoc,
      List.singleton_append]

/-- A line that is ended by a line feed. -/
theorem lines_append_newline {line : List Char} (h : Unbroken line) (rest : List Char) :
    lines (line ++ '\n' :: rest) = line :: lines rest := by
  rw [lines, linesFrom_append h, List.append_nil, linesFrom, List.reverse_reverse, lines]

/-- A line that is not ended. -/
theorem lines_unbroken {line : List Char} (h : Unbroken line) (hne : line ≠ []) :
    lines line = [line] := by
  have hlast := linesFrom_append h [] []
  rw [List.append_nil, List.append_nil] at hlast
  rw [lines, hlast, linesFrom, if_neg (by simpa using hne), List.reverse_reverse]

/-- Lines with line feeds between them, and behind the last one or not. -/
theorem lines_intercalate {texts : List (List Char)} (h : ∀ line ∈ texts, Unbroken line ∧ line ≠ []) :
    lines (['\n'].intercalate texts) = texts ∧
      (texts ≠ [] → lines (['\n'].intercalate texts ++ ['\n']) = texts) := by
  -- Both endings go together: before another line every line is ended.
  induction texts with
  | nil => exact ⟨rfl, fun hne ↦ absurd rfl hne⟩
  | cons line rest ih =>
    obtain ⟨⟨hline, hne⟩, hrest⟩ := List.forall_mem_cons.mp h
    cases rest with
    | nil =>
      rw [List.intercalate_singleton]
      exact ⟨lines_unbroken hline hne, fun _ ↦ lines_append_newline hline []⟩
    | cons next rest =>
      obtain ⟨hopen, hended⟩ := ih hrest
      rw [List.intercalate_cons_cons, List.append_assoc, List.append_assoc, List.append_assoc,
        List.singleton_append, List.singleton_append, lines_append_newline hline,
        lines_append_newline hline, hopen, hended (List.cons_ne_nil _ _)]
      exact ⟨rfl, fun _ ↦ rfl⟩

end Text

namespace ExpressionFile

/-- An expression that is a line by itself and is not dropped. -/
def FillsLine (expression : String) : Prop :=
  Text.Unbroken expression.toList ∧ Text.allBlank expression.toList = false

/-- A text that holds expressions in lines, of which the last one may be ended or not. -/
def Written (expressions : List String) (text : String) : Prop :=
  text = "\n".intercalate expressions ∨ text = "\n".intercalate expressions ++ "\n"

theorem ofLines_of_written {expressions : List String} {text : String}
    (h : ∀ expression ∈ expressions, FillsLine expression) (htext : Written expressions text) :
    ofLines text.toList = expressions := by
  have hlines : ∀ line ∈ expressions.map String.toList, Text.Unbroken line ∧ line ≠ [] := by
    intro line hline
    obtain ⟨expression, hmem, rfl⟩ := List.mem_map.mp hline
    obtain ⟨hunbroken, hblank⟩ := h expression hmem
    refine ⟨hunbroken, fun hnil ↦ ?_⟩
    rw [hnil] at hblank
    cases hblank
  have hkept : (expressions.map String.toList).filter (!Text.allBlank ·) =
      expressions.map String.toList := by
    refine List.filter_eq_self.mpr fun line hline ↦ ?_
    obtain ⟨expression, hmem, rfl⟩ := List.mem_map.mp hline
    simp [(h expression hmem).2]
  have hback : (expressions.map String.toList).map String.ofList = expressions := by
    simp [List.map_map, Function.comp_def]
  obtain ⟨hopen, hended⟩ := Text.lines_intercalate hlines
  rw [ofLines]
  rcases htext with rfl | rfl
  · rw [String.toList_intercalate, show "\n".toList = ['\n'] from rfl, hopen, hkept, hback]
  · rw [String.toList_append, String.toList_intercalate, show "\n".toList = ['\n'] from rfl]
    cases expressions with
    | nil => rfl
    | cons expression rest => rw [hended (List.cons_ne_nil _ _), hkept, hback]

/-- Loading gives the expressions back that a file holds in lines. -/
theorem load_of_written {expressions : List String} {text path : String} (config : Config)
    (column : Option String) (hpath : isSheet path = false)
    (h : ∀ expression ∈ expressions, FillsLine expression) (htext : Written expressions text) :
    load config column path (.ok text.toUTF8) = .ok expressions := by
  simp only [load_toUTF8, hpath, ofLines_of_written h htext, Bool.false_eq_true, if_false]

end ExpressionFile

end Reckon
