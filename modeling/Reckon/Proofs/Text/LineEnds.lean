import Reckon.Proofs.Text.Lines

/-!
# Ends of lines

Each line of a text may have an end of its own kind. A carriage return and the line feed of an
empty line behind it are one end, so the empty line is lost; but blank lines are dropped anyway.
So a file gives the lines that are not blank, whatever ends them.
-/

namespace Reckon

namespace Text

inductive LineEnd where
  | lineFeed
  | carriageReturn
  | returnAndFeed
deriving DecidableEq

def LineEnd.text : LineEnd → List Char
  | lineFeed => ['\n']
  | carriageReturn => ['\r']
  | returnAndFeed => ['\r', '\n']

/-- The texts of lines with any ends, of which the last one may be missing. -/
inductive Ended : List (List Char) → List Char → Prop where
  | nil : Ended [] []
  | unended (line : List Char) : Ended [line] line
  | cons {lines : List (List Char)} {rest : List Char} (line : List Char) (ending : LineEnd)
      (h : Ended lines rest) : Ended (line :: lines) (line ++ (ending.text ++ rest))

/-- The lines of a text that are not blank. -/
def filledLines (text : List Char) : List (List Char) :=
  (lines text).filter (!allBlank ·)

theorem filledLines_newline (rest : List Char) : filledLines ('\n' :: rest) = filledLines rest := by
  have hline : lines ('\n' :: rest) = [] :: lines rest :=
    @lines_append_newline [] ⟨List.not_mem_nil, List.not_mem_nil⟩ rest
  rw [filledLines, hline]
  rfl

/-- A line that a carriage return ends: a line feed behind it belongs to the same end. -/
theorem lines_append_return {line : List Char} (h : Unbroken line) (rest : List Char) :
    lines (line ++ '\r' :: rest) = line :: lines rest ∨
      ∃ tail, rest = '\n' :: tail ∧ lines (line ++ '\r' :: rest) = line :: lines tail := by
  rw [lines, linesFrom_append h, List.append_nil]
  cases rest with
  | nil => exact .inl (by rw [linesFrom, List.reverse_reverse, lines]; simp)
  | cons c tail =>
    by_cases hfeed : c = '\n'
    · subst hfeed
      exact .inr ⟨tail, rfl, by rw [linesFrom, List.reverse_reverse, lines]⟩
    · refine .inl ?_
      rw [linesFrom, List.reverse_reverse, lines]
      rintro tail' heq
      exact hfeed (List.cons.inj heq).1

/-- Whatever ends a line, it counts by itself and so does what is behind it. -/
theorem filledLines_append_end {line : List Char} (h : Unbroken line) (ending : LineEnd)
    (rest : List Char) :
    filledLines (line ++ (ending.text ++ rest)) =
      [line].filter (!allBlank ·) ++ filledLines rest := by
  have hcons (others : List (List Char)) : (line :: others).filter (!allBlank ·) =
      [line].filter (!allBlank ·) ++ others.filter (!allBlank ·) :=
    List.filter_append [line] others
  cases ending with
  | lineFeed => exact (congrArg _ (lines_append_newline h rest)).trans (hcons _)
  | carriageReturn =>
    rcases lines_append_return h rest with hline | ⟨tail, rfl, hline⟩
    · exact (congrArg _ hline).trans (hcons _)
    · rw [filledLines_newline]
      exact (congrArg _ hline).trans (hcons _)
  | returnAndFeed =>
    have hline : lines (line ++ '\r' :: '\n' :: rest) = line :: lines rest := by
      rw [lines, linesFrom_append h, List.append_nil, linesFrom, List.reverse_reverse, lines]
    exact (congrArg _ hline).trans (hcons _)

theorem filledLines_unbroken {line : List Char} (h : Unbroken line) :
    filledLines line = [line].filter (!allBlank ·) := by
  cases line with
  | nil => rfl
  | cons c line => rw [filledLines, lines_unbroken h (List.cons_ne_nil c line)]

/-- The ends of lines make no difference to the lines that are not blank. -/
theorem Ended.filledLines_eq {lines : List (List Char)} {text : List Char} (h : Ended lines text)
    (hunbroken : ∀ line ∈ lines, Unbroken line) :
    filledLines text = lines.filter (!allBlank ·) := by
  induction h with
  | nil => rfl
  | unended line => exact filledLines_unbroken (hunbroken line (List.mem_singleton_self line))
  | @cons lines rest line ending h ih =>
    obtain ⟨hline, hlines⟩ := List.forall_mem_cons.mp hunbroken
    rw [filledLines_append_end hline, ih hlines]
    exact (List.filter_append [line] lines).symm

end Text

namespace ExpressionFile

/-- A text that holds lines with any ends. -/
def Ends (texts : List String) (text : String) : Prop :=
  Text.Ended (texts.map String.toList) text.toList

theorem ofLines_of_ends {texts : List String} {text : String} (hends : Ends texts text)
    (hunbroken : ∀ line ∈ texts, Text.Unbroken line.toList) :
    ofLines text.toList = texts.filter fun line ↦ !Text.allBlank line.toList := by
  have hlines : ∀ line ∈ texts.map String.toList, Text.Unbroken line := by
    intro line hline
    obtain ⟨expression, hmem, rfl⟩ := List.mem_map.mp hline
    exact hunbroken expression hmem
  have hfilled := hends.filledLines_eq hlines
  rw [Text.filledLines, List.filter_map] at hfilled
  rw [ofLines, hfilled, List.map_map]
  simp [Function.comp_def]

/-- A file that is no sheet gives its lines in order and whole, blank ones apart, whatever ends
each of them. -/
theorem load_of_ends {path : String} {texts : List String} {text : String} (config : Config)
    (column : Option String) (hpath : isSheet path = false)
    (hunbroken : ∀ line ∈ texts, Text.Unbroken line.toList) (hends : Ends texts text) :
    load config column path (.ok text.toUTF8) =
      .ok (texts.filter fun line ↦ !Text.allBlank line.toList) := by
  simp only [load_toUTF8, hpath, ofLines_of_ends hends hunbroken, Bool.false_eq_true, if_false]

/-- A byte order mark stays, an empty line behind a carriage return vanishes, and a separator
of lines ends none. -/
theorem load_of_ends_mixed :
    (isSheet "in.txt" = false ∧
      (∀ line ∈ ["\ufeff1+1", "", " 2\u2028", "\u3000", "3\x0c"], Text.Unbroken line.toList) ∧
      Ends ["\ufeff1+1", "", " 2\u2028", "\u3000", "3\x0c"]
        "\ufeff1+1\r\n 2\u2028\r\n\u3000\r3\x0c") ∧
    load .default none "in.txt" (.ok "\ufeff1+1\r\n 2\u2028\r\n\u3000\r3\x0c".toUTF8) =
      .ok ["\ufeff1+1", " 2\u2028", "3\x0c"] := by
  have hpath : isSheet "in.txt" = false := by decide +kernel
  have hunbroken : ∀ line ∈ ["\ufeff1+1", "", " 2\u2028", "\u3000", "3\x0c"],
      Text.Unbroken line.toList := by
    simp only [Text.Unbroken]
    decide +kernel
  have hends : Ends ["\ufeff1+1", "", " 2\u2028", "\u3000", "3\x0c"]
      "\ufeff1+1\r\n 2\u2028\r\n\u3000\r3\x0c" :=
    .cons _ .carriageReturn (.cons _ .lineFeed (.cons _ .returnAndFeed
      (.cons _ .carriageReturn (.unended _))))
  exact ⟨⟨hpath, hunbroken, hends⟩, load_of_ends .default none hpath hunbroken hends⟩

end ExpressionFile

end Reckon
