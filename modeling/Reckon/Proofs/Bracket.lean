import Mathlib.Data.List.Basic
import Reckon.Token

/-!
# Brackets

The brackets of a text or of a sequence of tokens form a word. A word is balanced if no front
of it closes more brackets than it opens and as many are closed as are opened in all. A scan
that counts the open brackets decides this.
-/

namespace Reckon

inductive Bracket where
  | opening
  | closing
deriving DecidableEq

namespace Bracket

def ofChar? : Char → Option Bracket
  | '(' => some opening
  | ')' => some closing
  | _ => none

/-- The brackets of a text. -/
def word (text : List Char) : List Bracket :=
  text.filterMap ofChar?

def Balanced (word : List Bracket) : Prop :=
  (∀ front, front <+: word → front.count closing ≤ front.count opening) ∧
    word.count opening = word.count closing

/-- The number of open brackets after a word, if none is closed before it is opened. -/
def scan : Nat → List Bracket → Option Nat
  | depth, [] => some depth
  | depth, opening :: rest => scan (depth + 1) rest
  | 0, closing :: _ => none
  | depth + 1, closing :: rest => scan depth rest

@[simp] theorem count_opening_closing_cons (word : List Bracket) :
    (closing :: word).count opening = word.count opening :=
  List.count_cons_of_ne (by decide)

@[simp] theorem count_closing_opening_cons (word : List Bracket) :
    (opening :: word).count closing = word.count closing :=
  List.count_cons_of_ne (by decide)

theorem word_append (front back : List Char) : word (front ++ back) = word front ++ word back :=
  List.filterMap_append

theorem scan_append (depth : Nat) (front back : List Bracket) :
    scan depth (front ++ back) = (scan depth front).bind (scan · back) := by
  induction front generalizing depth with
  | nil => rfl
  | cons bracket rest ih =>
    cases bracket with
    | opening => exact ih (depth + 1)
    | closing =>
      cases depth with
      | zero => rfl
      | succ depth => exact ih depth

theorem count_of_scan {depth after : Nat} {word : List Bracket} (h : scan depth word = some after) :
    after + word.count closing = depth + word.count opening := by
  induction word generalizing depth with
  | nil =>
    cases h
    rfl
  | cons bracket rest ih =>
    cases bracket with
    | opening =>
      have hrest := ih h
      simp only [List.count_cons_self, count_closing_opening_cons]
      omega
    | closing =>
      cases depth with
      | zero => cases h
      | succ depth =>
        have hrest := ih h
        simp only [List.count_cons_self, count_opening_closing_cons]
        omega

/-- The scan fails exactly if some front closes more brackets than are open. -/
theorem scan_eq_none_iff {depth : Nat} {word : List Bracket} :
    scan depth word = none ↔
      ∃ front, front <+: word ∧ depth + front.count opening < front.count closing := by
  induction word generalizing depth with
  | nil => simp [scan]
  | cons bracket rest ih =>
    have hfronts (bound : List Bracket → Prop) (hnil : ¬ bound []) :
        (∃ front, front <+: bracket :: rest ∧ bound front) ↔
          ∃ front, front <+: rest ∧ bound (bracket :: front) := by
      constructor
      · rintro ⟨front, hfront, h⟩
        rcases List.prefix_cons_iff.mp hfront with rfl | ⟨tail, rfl, htail⟩
        · exact absurd h hnil
        · exact ⟨tail, htail, h⟩
      · rintro ⟨tail, htail, h⟩
        exact ⟨bracket :: tail, List.cons_prefix_cons.mpr ⟨rfl, htail⟩, h⟩
    rw [hfronts _ (by simp)]
    cases bracket with
    | opening =>
      rw [scan, ih]
      simp only [List.count_cons_self, count_closing_opening_cons, Nat.add_assoc, Nat.add_comm 1]
    | closing =>
      cases depth with
      | zero => exact iff_of_true rfl ⟨[], List.nil_prefix, by decide⟩
      | succ depth =>
        rw [scan, ih]
        simp only [List.count_cons_self, count_opening_closing_cons, Nat.add_right_comm depth 1,
          Nat.add_lt_add_iff_right]

theorem balanced_iff_scan {word : List Bracket} : Balanced word ↔ scan 0 word = some 0 := by
  constructor
  · rintro ⟨hfronts, htotal⟩
    cases hscan : scan 0 word with
    | none =>
      obtain ⟨front, hfront, hlt⟩ := scan_eq_none_iff.mp hscan
      have hle := hfronts front hfront
      omega
    | some after =>
      have hcount := count_of_scan hscan
      congr
      omega
  · intro hscan
    have hcount := count_of_scan hscan
    refine ⟨fun front hfront ↦ Nat.le_of_not_lt fun hlt ↦ ?_, by omega⟩
    have hnone : scan 0 word = none := scan_eq_none_iff.mpr ⟨front, hfront, by omega⟩
    cases hscan.symm.trans hnone

end Bracket

namespace Token

variable {α : Type}

/-- The bracket that a token is. -/
def bracket? : Token α → Option Bracket
  | .operator .openBracket => some .opening
  | .operator .closeBracket => some .closing
  | _ => none

/-- The brackets of a sequence of tokens. -/
def brackets (tokens : List (Token α)) : List Bracket :=
  tokens.filterMap bracket?

/-- The tokens that are no brackets. -/
def unbracketed (tokens : List (Token α)) : List (Token α) :=
  tokens.filter fun token ↦ token.bracket?.isNone

theorem brackets_append (front back : List (Token α)) :
    brackets (front ++ back) = brackets front ++ brackets back :=
  List.filterMap_append

theorem unbracketed_append (front back : List (Token α)) :
    unbracketed (front ++ back) = unbracketed front ++ unbracketed back :=
  List.filter_append front back

theorem eq_openBracket {token : Token α} (h : token.bracket? = some .opening) :
    token = .operator .openBracket := by
  revert h
  unfold bracket?
  split <;> simp

theorem eq_closeBracket {token : Token α} (h : token.bracket? = some .closing) :
    token = .operator .closeBracket := by
  revert h
  unfold bracket?
  split <;> simp

theorem bracket?_operator {o : Operator} (hopen : o ≠ .openBracket) (hclose : o ≠ .closeBracket) :
    (.operator o : Token α).bracket? = none := by
  cases o <;> first | rfl | exact absurd rfl hopen | exact absurd rfl hclose

end Token

end Reckon
