import Reckon.Proofs.Equation.Faults

/-!
# What is reported of a text without pieces

A text that holds an illegible character is reported at the first of these, whatever was cut off
before it: an illegible start is never saved by what follows. The report quotes the text from
there on, as far as neither a number nor a bracket interrupts it. A text whose characters are all
dropped is reported as empty. Every other text has pieces.
-/

namespace Reckon.Piece

variable {skipBlanks : Bool} {text quoted : List Char} {position : Nat}

theorem Reported.not_legible (h : Reported skipBlanks text quoted position) :
    ¬ ∀ c ∈ text, Legible skipBlanks c := by
  obtain ⟨c, hc, hillegible⟩ := h.illegible
  exact fun hall ↦ hillegible (hall c (List.mem_of_getElem? hc))

/-- There is one report on a text. -/
theorem Reported.unique {other : List Char} {place : Nat}
    (h : Reported skipBlanks text quoted position) (h' : Reported skipBlanks text other place) :
    quoted = other ∧ position = place := by
  have hle {first last : List Char} {before behind : Nat}
      (hbefore : Reported skipBlanks text first before)
      (hbehind : Reported skipBlanks text last behind) : behind ≤ before := by
    obtain ⟨c, hc, hillegible⟩ := hbefore.illegible
    refine Nat.le_of_not_lt fun hlt ↦ hillegible (hbehind.legible c ?_)
    exact List.mem_of_getElem? ((List.getElem?_take_of_lt hlt).trans hc)
  obtain rfl : position = place := Nat.le_antisymm (hle h' h) (hle h h')
  have hlength : quoted.length = other.length :=
    Nat.le_antisymm (h'.longest quoted h.starts h.uninterrupted)
      (h.longest other h'.starts h'.uninterrupted)
  have hstarts : quoted <+: other :=
    List.prefix_of_prefix_length_le h.starts h'.starts (Nat.le_of_eq hlength)
  exact ⟨hstarts.eq_of_length hlength, rfl⟩

/-- A text is reported for an unknown symbol exactly by the report on its first illegible
character. -/
theorem ofText_unknownSymbol_iff :
    ofText skipBlanks text = .error (.unknownSymbol quoted position) ↔
      Reported skipBlanks text quoted position := by
  by_cases hlegible : ∀ c ∈ text, Legible skipBlanks c
  · refine iff_of_false (fun h ↦ ?_) fun h ↦ h.not_legible hlegible
    obtain ⟨pieces, hcuts⟩ := exists_cuts hlegible
    rw [ofText, cut_of_cuts hcuts] at h
    cases pieces with
    | nil => cases h
    | cons piece rest => cases h
  · obtain ⟨found, place, hreported, hcut⟩ := stops_of_not_legible hlegible
    have hofText : ofText skipBlanks text = .error (.unknownSymbol found place) := by
      rw [ofText, hcut, Nat.zero_add]
    rw [hofText]
    constructor
    · intro h
      cases h
      exact hreported
    · intro h
      obtain ⟨rfl, rfl⟩ := h.unique hreported
      rfl

/-- A text is reported as empty exactly if all its characters are dropped. -/
theorem ofText_emptyExpression_iff {shown : List Char} :
    ofText skipBlanks text = .error (.emptyExpression shown) ↔
      shown = text ∧ ∀ c ∈ text, skipBlanks = true ∧ Text.isBlank c = true := by
  by_cases hlegible : ∀ c ∈ text, Legible skipBlanks c
  · obtain ⟨pieces, hcuts⟩ := exists_cuts hlegible
    rw [← hcuts.eq_nil_iff, ofText, cut_of_cuts hcuts]
    cases pieces with
    | nil => simp [eq_comm]
    | cons piece rest => simp
  · refine iff_of_false (fun h ↦ ?_) fun h ↦ hlegible fun c hc ↦ .inr (.inr (h.2 c hc))
    obtain ⟨found, place, _, hcut⟩ := stops_of_not_legible hlegible
    rw [ofText, hcut] at h
    cases h

theorem exists_ofText_iff :
    (∃ pieces, ofText skipBlanks text = .ok pieces) ↔ Lexable skipBlanks text := by
  rcases ofText_cases skipBlanks text with
    ⟨hlexable, fault, herror, _⟩ | ⟨hlexable, pieces, hpieces, _⟩
  · simp [herror, hlexable]
  · simp [hpieces, hlexable]

/-- Which texts have pieces, and what is reported of each other text: the longest uninterrupted
quotation from its first illegible character on, or that nothing is left of it. -/
theorem ofText_accepts_or_reports (skipBlanks : Bool) (text : List Char) :
    ((∃ pieces, ofText skipBlanks text = .ok pieces) ↔
        (∀ c ∈ text, Legible skipBlanks c) ∧
          ∃ c ∈ text, ¬ (skipBlanks = true ∧ Text.isBlank c = true)) ∧
      ((∃ c ∈ text, ¬ Legible skipBlanks c) ↔
        ∃ quoted position, ofText skipBlanks text = .error (.unknownSymbol quoted position)) ∧
      (∀ quoted position,
        ofText skipBlanks text = .error (.unknownSymbol quoted position) ↔
          Reported skipBlanks text quoted position ∧
            (text.drop position).take quoted.length = quoted) ∧
      (ofText skipBlanks text = .error (.emptyExpression text) ↔
        ∀ c ∈ text, skipBlanks = true ∧ Text.isBlank c = true) ∧
      (∀ quoted position, (Fault.unknownSymbol quoted position).kind.name = "LexError" ∧
        (Fault.unknownSymbol quoted position).text? = some quoted ∧
        (Fault.unknownSymbol quoted position).position? = some position) ∧
      (Fault.emptyExpression text).report = "LexError: Empty expression" ∧
      (Fault.emptyExpression text).text? = some text ∧
      (Fault.emptyExpression text).position? = some 0 := by
  refine ⟨exists_ofText_iff, ?_, fun quoted position ↦ ?_, ?_, fun _ _ ↦ ⟨rfl, rfl, rfl⟩, rfl, rfl,
    rfl⟩
  · constructor
    · rintro ⟨c, hc, hillegible⟩
      obtain ⟨quoted, position, hreported, _⟩ := stops_of_not_legible fun hall ↦ hillegible (hall c hc)
      exact ⟨quoted, position, ofText_unknownSymbol_iff.mpr hreported⟩
    · rintro ⟨quoted, position, h⟩
      have hillegible := (ofText_unknownSymbol_iff.mp h).not_legible
      simpa only [not_forall, exists_prop] using hillegible
  · rw [ofText_unknownSymbol_iff]
    exact ⟨fun h ↦ ⟨h, List.prefix_iff_eq_take.mp h.starts |>.symm⟩, fun h ↦ h.1⟩
  · rw [ofText_emptyExpression_iff]
    exact and_iff_right rfl

/-- A blank that would be dropped by itself is quoted behind an illegible start. -/
example : ofText true "1 + a *b(2".toList = .error (.unknownSymbol "a *b".toList 4) := by
  decide +kernel

end Reckon.Piece
