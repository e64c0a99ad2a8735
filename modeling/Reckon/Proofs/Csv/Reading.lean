import Mathlib.Data.List.Induction
import Reckon.Csv.Sheet

/-!
# Reading what was written

A field without commas, quotes and ends of lines is read as it stands, and a field in quotes is
read back whatever it holds. Only a field with a carriage return is lost if the writer sees nothing
in it that asks for quotes, because its carriage return ends the record. Records of at least two
fields are never blank lines, so they are read back one by one; and a line without quotes gives no
field with a carriage return.
-/

namespace Reckon.Csv

/-- The characters that have a meaning outside quotes. -/
def isSpecial (c : Char) : Bool :=
  c == ',' || c == '"' || c == '\n' || c == '\r'

variable {quotesReturn : Bool}

/-- Every writer quotes a field for a comma, a quote or a line feed, and some for a carriage
return. -/
theorem needsQuotes_iff {field : Field} :
    needsQuotes quotesReturn field = true ↔
      ',' ∈ field ∨ '"' ∈ field ∨ '\n' ∈ field ∨ quotesReturn = true ∧ '\r' ∈ field := by
  simp [needsQuotes, or_assoc, and_comm]

theorem not_mem_of_bare {field : Field} (h : needsQuotes quotesReturn field = false) :
    ',' ∉ field ∧ '"' ∉ field ∧ '\n' ∉ field := by
  have hnone := mt needsQuotes_iff.mpr (Bool.eq_false_iff.mp h)
  simp only [not_or] at hnone
  exact ⟨hnone.1, hnone.2.1, hnone.2.2.1⟩

/-- A field whose carriage returns, if it has any, are written in quotes. -/
def Kept (quotesReturn : Bool) (field : Field) : Prop :=
  '\r' ∈ field → needsQuotes quotesReturn field = true

theorem Kept.isSpecial_eq_false {field : Field} (h : Kept quotesReturn field)
    (hbare : needsQuotes quotesReturn field = false) : ∀ c ∈ field, isSpecial c = false := by
  intro c hc
  obtain ⟨hcomma, hquote, hnewline⟩ := not_mem_of_bare hbare
  have hreturn : '\r' ∉ field := fun hmem ↦ Bool.eq_false_iff.mp hbare (h hmem)
  simp only [isSpecial, Bool.or_eq_false_iff, beq_eq_false_iff_ne]
  exact ⟨⟨⟨ne_of_mem_of_not_mem hc hcomma, ne_of_mem_of_not_mem hc hquote⟩,
    ne_of_mem_of_not_mem hc hnewline⟩, ne_of_mem_of_not_mem hc hreturn⟩

theorem kept_of_not_mem {field : Field} (h : '\r' ∉ field) : Kept quotesReturn field :=
  fun hmem ↦ absurd hmem h

/-! ## A record -/

section Record

variable {place : Place} {fields : List Field} {field : Field}

theorem readRecord_comma (hplace : place ≠ .quoted) (rest : List Char) :
    readRecord place fields field (',' :: rest) =
      readRecord .fieldStart (field.reverse :: fields) [] rest := by
  simp [readRecord, hplace]

theorem readRecord_newline (hplace : place ≠ .quoted) (rest : List Char) :
    readRecord place fields field ('\n' :: rest) = some ((field.reverse :: fields).reverse, rest) := by
  simp [readRecord, hplace]

theorem readRecord_return (hplace : place ≠ .quoted) (rest : List Char) :
    readRecord place fields field ('\r' :: rest) =
      some ((field.reverse :: fields).reverse, skipLineFeed rest) := by
  simp [readRecord, hplace]

theorem readRecord_plain {c : Char} (hplace : place ≠ .quoted) (hc : isSpecial c = false)
    (rest : List Char) :
    readRecord place fields field (c :: rest) = readRecord .bare fields (c :: field) rest := by
  simp only [isSpecial, Bool.or_eq_false_iff, beq_eq_false_iff_ne] at hc
  simp [readRecord, hplace, hc]

/-- A text outside quotes goes into the field. -/
theorem readRecord_append_plain {text : List Char} (hplace : place ≠ .quoted)
    (h : ∀ c ∈ text, isSpecial c = false) (fields : List Field) (field : Field) (rest : List Char) :
    ∃ last, last ≠ .quoted ∧ readRecord place fields field (text ++ rest) =
      readRecord last fields (text.reverse ++ field) rest := by
  induction text generalizing place field with
  | nil => exact ⟨place, hplace, rfl⟩
  | cons c text ih =>
    obtain ⟨hc, htext⟩ := List.forall_mem_cons.mp h
    obtain ⟨last, hlast, heq⟩ := @ih .bare (by decide) htext (c :: field)
    refine ⟨last, hlast, ?_⟩
    rw [List.cons_append, readRecord_plain hplace hc, heq, List.reverse_cons, List.append_assoc,
      List.singleton_append]

/-- A text in quotes goes into the field, up to the quote that closes it. -/
theorem readRecord_double (fields : List Field) (text field : Field) (rest : List Char) :
    readRecord .quoted fields field (double text ++ '"' :: rest) =
      readRecord .quoteSeen fields (text.reverse ++ field) rest := by
  induction text generalizing field with
  | nil => simp [double, readRecord]
  | cons c text ih =>
    have hstep : readRecord .quoted fields field (double (c :: text) ++ '"' :: rest) =
        readRecord .quoted fields (c :: field) (double text ++ '"' :: rest) := by
      by_cases hc : c = '"' <;> simp [double, readRecord, hc]
    rw [hstep, ih, List.reverse_cons, List.append_assoc, List.singleton_append]

/-- A written field is read up to its end. -/
theorem readRecord_writeField {written : Field} (h : Kept quotesReturn written)
    (fields : List Field) (rest : List Char) :
    ∃ last, last ≠ .quoted ∧
      readRecord .fieldStart fields [] (writeField quotesReturn written ++ rest) =
        readRecord last fields written.reverse rest := by
  unfold writeField
  cases hquotes : needsQuotes quotesReturn written with
  | false =>
    obtain ⟨last, hlast, heq⟩ := readRecord_append_plain
      (by decide : Place.fieldStart ≠ .quoted) (h.isSpecial_eq_false hquotes) fields [] rest
    rw [List.append_nil] at heq
    exact ⟨last, hlast, heq⟩
  | true =>
    refine ⟨.quoteSeen, by decide, ?_⟩
    have hopen : readRecord .fieldStart fields [] ('"' :: (double written ++ '"' :: rest)) =
        readRecord .quoted fields [] (double written ++ '"' :: rest) := by
      simp [readRecord]
    have hclose := readRecord_double fields written [] rest
    rw [List.append_nil] at hclose
    rw [if_pos rfl, List.cons_append, List.cons_append, List.append_assoc, List.singleton_append,
      hopen, hclose]

/-- The written fields of a record are read up to the line feed. -/
theorem readRecord_writeFields {record : Record} (hne : record ≠ [])
    (h : ∀ f ∈ record, Kept quotesReturn f) (fields : List Field) (rest : List Char) :
    readRecord .fieldStart fields []
        ([','].intercalate (record.map (writeField quotesReturn)) ++ '\n' :: rest) =
      some (fields.reverse ++ record, rest) := by
  induction record generalizing fields with
  | nil => exact absurd rfl hne
  | cons first others ih =>
    obtain ⟨hfirst, hothers⟩ := List.forall_mem_cons.mp h
    cases others with
    | nil =>
      obtain ⟨last, hlast, heq⟩ := readRecord_writeField hfirst fields ('\n' :: rest)
      rw [List.map_singleton, List.intercalate_singleton, heq, readRecord_newline hlast]
      simp
    | cons second others =>
      obtain ⟨last, hlast, heq⟩ := readRecord_writeField hfirst fields
        (',' :: ([','].intercalate ((second :: others).map (writeField quotesReturn)) ++
          '\n' :: rest))
      have htail := ih (List.cons_ne_nil _ _) hothers (first :: fields)
      rw [List.map_cons, List.map_cons, List.intercalate_cons_cons, ← List.map_cons,
        List.append_assoc, List.append_assoc, List.singleton_append, heq, readRecord_comma hlast,
        List.reverse_reverse, htail, List.reverse_cons, List.append_assoc, List.singleton_append]

end Record

/-! ## Blank lines -/

theorem nextRecord_indent {c : Char} (h : c = ' ' ∨ c = '\t') (kept rest : List Char)
    (indented : Bool) : nextRecord kept indented (c :: rest) = nextRecord kept true rest := by
  rcases h with rfl | rfl <;> simp [nextRecord]

theorem nextRecord_visible {c : Char} (hline : c ≠ '\n' ∧ c ≠ '\r') (hindent : ¬ (c = ' ' ∨ c = '\t'))
    (kept rest : List Char) (indented : Bool) :
    nextRecord kept indented (c :: rest) = if indented then some kept else some (c :: rest) := by
  rw [nextRecord]
  · rw [if_neg hindent]
  · exact hline.1
  · rintro _ rfl
    exact absurd rfl hline.2
  · rintro _ rfl
    exact absurd rfl hline.2
  · exact hline.2

theorem nextRecord_indented {front : List Char} (h : ∀ c ∈ front, c ≠ '\n' ∧ c ≠ '\r')
    (kept rest : List Char) : nextRecord kept true (front ++ ',' :: rest) = some kept := by
  induction front with
  | nil => rw [List.nil_append, nextRecord_visible (by decide) (by decide), if_pos rfl]
  | cons c front ih =>
    obtain ⟨hc, hfront⟩ := List.forall_mem_cons.mp h
    rw [List.cons_append]
    by_cases hindent : c = ' ' ∨ c = '\t'
    · rw [nextRecord_indent hindent, ih hfront]
    · rw [nextRecord_visible hc hindent, if_pos rfl]

/-- A line with a comma in it is a record from its start. -/
theorem nextRecord_comma {front : List Char} (h : ∀ c ∈ front, c ≠ '\n' ∧ c ≠ '\r')
    (rest : List Char) :
    nextRecord (front ++ ',' :: rest) false (front ++ ',' :: rest) = some (front ++ ',' :: rest) := by
  cases front with
  | nil => exact nextRecord_visible (by decide) (by decide) _ _ _
  | cons c front =>
    obtain ⟨hc, hfront⟩ := List.forall_mem_cons.mp h
    rw [List.cons_append]
    by_cases hindent : c = ' ' ∨ c = '\t'
    · rw [nextRecord_indent hindent, nextRecord_indented hfront]
    · rw [nextRecord_visible hc hindent, if_neg (by decide)]

theorem nextRecord_writeField {field : Field} (h : Kept quotesReturn field) (rest : List Char) :
    nextRecord (writeField quotesReturn field ++ ',' :: rest) false
        (writeField quotesReturn field ++ ',' :: rest) =
      some (writeField quotesReturn field ++ ',' :: rest) := by
  unfold writeField
  cases hquotes : needsQuotes quotesReturn field with
  | false =>
    refine nextRecord_comma (fun c hc ↦ ?_) rest
    have hplain := h.isSpecial_eq_false hquotes c hc
    simp only [isSpecial, Bool.or_eq_false_iff, beq_eq_false_iff_ne] at hplain
    exact ⟨hplain.1.2, hplain.2⟩
  | true => exact nextRecord_visible (by decide) (by decide) _ _ _

/-! ## Records -/

theorem readLines_of {text start rest : List Char} {record : Record}
    (hstart : nextRecord text false text = some start)
    (hrecord : readRecord .fieldStart [] [] start = some (record, rest)) :
    readLines text = (readLines rest).map (record :: ·) := by
  rw [readLines]
  split
  · next hnone => rw [hstart] at hnone; cases hnone
  · next start' hstart' =>
    obtain rfl := Option.some.inj (hstart.symm.trans hstart')
    split
    · next hnone => rw [hrecord] at hnone; cases hnone
    · next record' rest' hrecord' =>
      cases hrecord.symm.trans hrecord'
      rfl

theorem readLines_nil : readLines [] = some [] := by
  rw [readLines]
  simp [nextRecord]

/-- A record that is more than a blank line, and that comes back. -/
structure Record.Regular (quotesReturn : Bool) (record : Record) : Prop where
  two_le_length : 2 ≤ record.length
  kept : ∀ field ∈ record, Kept quotesReturn field

theorem readLines_writeRecord {record : Record} (h : record.Regular quotesReturn)
    (rest : List Char) :
    readLines (writeRecord quotesReturn record ++ rest) =
      (readLines rest).map (record :: ·) := by
  obtain ⟨hlength, hkept⟩ := h
  match record, hlength with
  | first :: second :: others, _ =>
    have htext : writeRecord quotesReturn (first :: second :: others) ++ rest =
        writeField quotesReturn first ++ ',' ::
          ([','].intercalate ((second :: others).map (writeField quotesReturn)) ++
            '\n' :: rest) := by
      have hlong : first :: second :: others ≠ [[]] := by simp
      rw [writeRecord, if_neg hlong, List.map_cons, List.map_cons, List.intercalate_cons_cons,
        ← List.map_cons]
      simp only [List.append_assoc, List.cons_append, List.nil_append]
    have hstart := nextRecord_writeField (hkept first List.mem_cons_self)
      ([','].intercalate ((second :: others).map (writeField quotesReturn)) ++ '\n' :: rest)
    have hrecord := readRecord_writeFields (List.cons_ne_nil first (second :: others)) hkept [] rest
    rw [List.map_cons, List.map_cons, List.intercalate_cons_cons, ← List.map_cons, List.append_assoc,
      List.append_assoc, List.singleton_append, List.reverse_nil, List.nil_append] at hrecord
    rw [htext]
    exact readLines_of hstart hrecord

/-- Written records are read back before whatever follows them. -/
theorem readLines_write {records : List Record}
    (h : ∀ record ∈ records, record.Regular quotesReturn) (rest : List Char) :
    readLines (write quotesReturn records ++ rest) = (readLines rest).map (records ++ ·) := by
  induction records with
  | nil => simp [write]
  | cons record records ih =>
    obtain ⟨hrecord, hrecords⟩ := List.forall_mem_cons.mp h
    rw [write, List.flatMap_cons, List.append_assoc, readLines_writeRecord hrecord, ← write,
      ih hrecords, Option.map_map]
    rfl

/-! ## Lines without quotes -/

/-- Outside quotes a carriage return ends the record, so it is in no field. -/
theorem readRecord_unquoted {place : Place} {fields : List Field} {field : Field}
    (hplace : place ≠ .quoted) (hfields : ∀ f ∈ fields, '\r' ∉ f) (hfield : '\r' ∉ field)
    {line : List Char} (hline : '"' ∉ line) (rest : List Char) :
    ∃ record after, readRecord place fields field (line ++ '\n' :: rest) = some (record, after) ∧
      ∀ f ∈ record, '\r' ∉ f := by
  have hfinished : ∀ f ∈ (field.reverse :: fields).reverse, '\r' ∉ f := by
    intro f hf
    rcases List.mem_cons.mp (List.mem_reverse.mp hf) with rfl | hf
    · rwa [List.mem_reverse]
    · exact hfields f hf
  induction line generalizing place fields field with
  | nil => exact ⟨_, _, readRecord_newline hplace rest, hfinished⟩
  | cons c line ih =>
    obtain ⟨hquote, hrest⟩ := not_or.mp (mt List.mem_cons.mpr hline)
    rw [List.cons_append]
    by_cases hnewline : c = '\n'
    · subst hnewline
      exact ⟨_, _, readRecord_newline hplace _, hfinished⟩
    by_cases hreturn : c = '\r'
    · subst hreturn
      exact ⟨_, _, readRecord_return hplace _, hfinished⟩
    by_cases hcomma : c = ','
    · subst hcomma
      rw [readRecord_comma hplace]
      have hfields' : ∀ f ∈ field.reverse :: fields, '\r' ∉ f :=
        fun f hf ↦ hfinished f (List.mem_reverse.mpr hf)
      refine ih (by decide) hfields' List.not_mem_nil hrest fun f hf ↦ ?_
      rcases List.mem_cons.mp (List.mem_reverse.mp hf) with rfl | hf
      · exact List.not_mem_nil
      · exact hfields' f hf
    · have hplain : isSpecial c = false := by
        simp [isSpecial, hcomma, hnewline, hreturn, Ne.symm hquote]
      rw [readRecord_plain hplace hplain]
      have hfield' : '\r' ∉ c :: field := by
        simp [hfield, Ne.symm hreturn]
      refine ih (by decide) hfields hfield' hrest fun f hf ↦ ?_
      rcases List.mem_cons.mp (List.mem_reverse.mp hf) with rfl | hf
      · rwa [List.mem_reverse]
      · exact hfields f hf

/-- A line without quotes in which a record is found, before the text behind the line. -/
def Occupied (rest line : List Char) : Prop :=
  ∀ (kept : List Char) (indented : Bool), '"' ∉ kept → ∃ start, '"' ∉ start ∧
    nextRecord (kept ++ '\n' :: rest) indented (line ++ '\n' :: rest) = some (start ++ '\n' :: rest)

section Occupied

variable {rest line : List Char}

theorem occupied_visible {c : Char} (hline : c ≠ '\n' ∧ c ≠ '\r') (hindent : ¬ (c = ' ' ∨ c = '\t'))
    (hquote : '"' ∉ c :: line) : Occupied rest (c :: line) := by
  intro kept indented hkept
  rw [List.cons_append, nextRecord_visible hline hindent]
  cases indented with
  | true => exact ⟨kept, hkept, rfl⟩
  | false => exact ⟨c :: line, hquote, rfl⟩

theorem Occupied.indent (h : Occupied rest line) {c : Char} (hc : c = ' ' ∨ c = '\t') :
    Occupied rest (c :: line) := by
  intro kept indented hkept
  rw [List.cons_append, nextRecord_indent hc]
  exact h kept true hkept

theorem Occupied.comma (h : Occupied rest line) : Occupied rest ('\r' :: ',' :: line) := by
  intro kept indented hkept
  rw [List.cons_append, List.cons_append, nextRecord]
  exact h kept false hkept

theorem Occupied.ended {c : Char} (h : Occupied rest (c :: line)) (hcomma : c ≠ ',')
    (hnewline : c ≠ '\n') : Occupied rest ('\r' :: c :: line) := by
  intro kept indented hkept
  rw [List.cons_append, List.cons_append, nextRecord]
  · exact h kept false hkept
  · rintro _ heq
    exact hnewline (List.cons.inj heq).1
  · rintro _ heq
    exact hcomma (List.cons.inj heq).1

/-- A character that no comma follows, before a line in which a record is found. -/
theorem Occupied.cons (h : Occupied rest line) {c : Char} (hnewline : '\n' ∉ c :: line)
    (hquote : '"' ∉ c :: line) (hcomma : c = '\r' → line.head? ≠ some ',') :
    Occupied rest (c :: line) := by
  obtain ⟨hfeed, hnewline'⟩ := not_or.mp (mt List.mem_cons.mpr hnewline)
  by_cases hindent : c = ' ' ∨ c = '\t'
  · exact h.indent hindent
  by_cases hreturn : c = '\r'
  · subst hreturn
    cases line with
    | nil =>
      intro kept indented hkept
      exact h kept false hkept
    | cons d line =>
      refine h.ended (fun hd ↦ hcomma rfl (congrArg some hd)) ?_
      exact fun hd ↦ hnewline' (hd ▸ List.mem_cons_self)
  · exact occupied_visible ⟨Ne.symm hfeed, hreturn⟩ hindent hquote

/-- A comma behind the front may belong to a blank line, but what is behind the comma does not. -/
theorem Occupied.behind (h : Occupied rest line) {front : List Char}
    (hnewline : '\n' ∉ front ++ ',' :: line) (hquote : '"' ∉ front ++ ',' :: line) :
    Occupied rest (front ++ ',' :: line) := by
  -- A carriage return may take the comma behind it along, so the front can lose two characters.
  induction front using List.twoStepInduction with
  | nil => exact occupied_visible (by decide) (by decide) hquote
  | singleton c =>
    by_cases hreturn : c = '\r'
    · subst hreturn
      exact h.comma
    · have hbehind : Occupied rest (',' :: line) :=
        occupied_visible (by decide) (by decide) fun hmem ↦ hquote (List.mem_cons_of_mem c hmem)
      exact hbehind.cons hnewline hquote fun hc ↦ absurd hc hreturn
  | cons_cons c d front ih ihd =>
    have hshorter {x : Char} (hx : x ∉ c :: d :: front ++ ',' :: line) :
        x ∉ d :: front ++ ',' :: line := fun hmem ↦ hx (List.mem_cons_of_mem c hmem)
    have hshortest {x : Char} (hx : x ∉ c :: d :: front ++ ',' :: line) :
        x ∉ front ++ ',' :: line := fun hmem ↦ hshorter hx (List.mem_cons_of_mem d hmem)
    by_cases hlost : c = '\r' ∧ d = ','
    · obtain ⟨rfl, rfl⟩ := hlost
      exact (ih (hshortest hnewline) (hshortest hquote)).comma
    · refine (ihd d (hshorter hnewline) (hshorter hquote)).cons hnewline hquote fun hc hd ↦ ?_
      exact hlost ⟨hc, Option.some.inj hd⟩

end Occupied

/-- A line without quotes is read as a record without carriage returns. -/
theorem Occupied.readLines_eq {rest line : List Char} (h : Occupied rest line) (hquote : '"' ∉ line) :
    ∃ record after, readLines (line ++ '\n' :: rest) = (readLines after).map (record :: ·) ∧
      ∀ f ∈ record, '\r' ∉ f := by
  obtain ⟨start, hstart, hnext⟩ := h line false hquote
  obtain ⟨record, after, hrecord, hreturn⟩ := @readRecord_unquoted .fieldStart [] []
    (by decide) (fun _ hf ↦ absurd hf List.not_mem_nil) List.not_mem_nil _ hstart rest
  exact ⟨record, after, readLines_of hnext hrecord, hreturn⟩

end Reckon.Csv
