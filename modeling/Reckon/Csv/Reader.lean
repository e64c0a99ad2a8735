import Reckon.Csv.Writer

/-!
# Reading comma separated records

A record ends at a line feed, a carriage return, or one behind the other, outside quotes. A quote
opens a quoted field only as its first character; a quote written twice inside is one quote, and
what follows the closing quote still belongs to the field. Fields keep all their blanks.

Lines without characters, and lines of nothing but spaces and tabs, are blank and hold no record,
with two exceptions. A comma right behind the carriage return of a blank line belongs to that
line. And if the first line that is not blank starts with a space or a tab, the blank lines that
end in a carriage return are records after all, back to the latest line feed.
-/

namespace Reckon.Csv

/-- The text from the next record on, past blank lines; `kept` is the text behind the latest line
feed, and `indented` tells whether the line has had nothing but spaces and tabs so far. -/
def nextRecord (kept : List Char) (indented : Bool) : List Char → Option (List Char)
  | [] => none
  | '\n' :: rest => nextRecord rest false rest
  | '\r' :: '\n' :: rest => nextRecord rest false rest
  | '\r' :: ',' :: rest => nextRecord kept false rest
  | '\r' :: rest => nextRecord kept false rest
  | c :: rest =>
    if c = ' ' ∨ c = '\t' then nextRecord kept true rest
    else if indented then some kept
    else some (c :: rest)

/-- Where the reader stands in a field. -/
inductive Place where
  | fieldStart
  | bare
  | quoted
  /-- Behind a quote in a quoted field. -/
  | quoteSeen
deriving DecidableEq

def skipLineFeed : List Char → List Char
  | '\n' :: rest => rest
  | text => text

/-- The record that goes on at a place, behind some fields and a part of a field, both with the
latest first; and the text behind it. A quote that is not closed gives none. -/
def readRecord (place : Place) (fields : List Field) (field : Field) :
    List Char → Option (Record × List Char)
  | [] => if place = .quoted then none else some ((field.reverse :: fields).reverse, [])
  | c :: rest =>
    if place = .quoted then
      if c = '"' then readRecord .quoteSeen fields field rest
      else readRecord .quoted fields (c :: field) rest
    else if c = '\n' then some ((field.reverse :: fields).reverse, rest)
    else if c = '\r' then some ((field.reverse :: fields).reverse, skipLineFeed rest)
    else if c = ',' then readRecord .fieldStart (field.reverse :: fields) [] rest
    else if c = '"' ∧ place = .quoteSeen then readRecord .quoted fields ('"' :: field) rest
    else if c = '"' ∧ place = .fieldStart then readRecord .quoted fields [] rest
    else readRecord .bare fields (c :: field) rest

theorem length_nextRecord {kept text start : List Char} {indented : Bool}
    (hkept : text.length ≤ kept.length) (h : nextRecord kept indented text = some start) :
    0 < start.length ∧ start.length ≤ kept.length := by
  fun_induction nextRecord kept indented text with
  | case1 => simp at h
  | case2 kept indented rest ih =>
    have := ih (Nat.le_refl _) h
    simp only [List.length_cons] at hkept
    omega
  | case3 kept indented rest ih =>
    have := ih (Nat.le_refl _) h
    simp only [List.length_cons] at hkept
    omega
  | case4 kept indented rest ih => exact ih (by simp only [List.length_cons] at hkept; omega) h
  | case5 kept indented rest _ _ ih => exact ih (by simp only [List.length_cons] at hkept; omega) h
  | case6 kept indented c rest _ _ _ _ _ ih =>
    exact ih (by simp only [List.length_cons] at hkept; omega) h
  | case7 kept c rest =>
    simp only [Option.some.injEq] at h
    subst h
    simp only [List.length_cons] at hkept
    omega
  | case8 kept indented c rest =>
    simp only [Option.some.injEq] at h
    subst h
    simp only [List.length_cons] at hkept ⊢
    omega

theorem length_skipLineFeed (text : List Char) : (skipLineFeed text).length ≤ text.length := by
  unfold skipLineFeed
  split <;> simp

theorem length_readRecord {place : Place} {fields : List Field} {field : Field}
    {text rest : List Char} {record : Record}
    (h : readRecord place fields field text = some (record, rest)) :
    rest.length ≤ text.length - 1 := by
  fun_induction readRecord place fields field text <;> simp_all <;> grind [length_skipLineFeed]

/-- The records of a text that starts with a line. -/
def readLines (text : List Char) : Option (List Record) :=
  match _hstart : nextRecord text false text with
  | none => some []
  | some start =>
    match _hrecord : readRecord .fieldStart [] [] start with
    | none => none
    | some (record, rest) => (readLines rest).map (record :: ·)
termination_by text.length
decreasing_by
  have := length_nextRecord (Nat.le_refl _) _hstart
  have := length_readRecord _hrecord
  omega

/-- The records of a text; a byte order mark at its start is no part of them. -/
def read? : List Char → Option (List Record)
  | '\ufeff' :: text => readLines text
  | text => readLines text

end Reckon.Csv
