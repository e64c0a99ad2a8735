import Mathlib.Data.List.Basic
import Reckon.Piece

/-!
# Cutting a text

A text is cut at its front in one of four ways: a maximal run of numeric characters, a blank
that is dropped, a symbol, or a character that starts nothing. Each way has its equation, and
induction over the four ways replaces induction over the length of the text. A text can be cut
exactly if all its characters are legible; otherwise cutting stops with a report that quotes the
text from its first illegible character on.
-/

namespace Reckon.Text

/-- No blank character has a digit value. -/
theorem isDigit_of_isBlank {c : Char} (h : isBlank c = true) : isDigit c = false := by
  obtain ⟨range, hmem, hfirst, hlast⟩ := (CharSet.holds_iff ascending_blanks).mp h
  have hall : ∀ range ∈ blanks, ∀ code ∈ List.range' range.1 (range.2 + 1 - range.1),
      digits.holds code = false := by
    decide +kernel
  exact hall range hmem c.toNat (List.mem_range'_1.mpr (by omega))

end Reckon.Text

namespace Reckon.Piece

/-- The characters that are symbols by themselves. -/
def symbols : List Char :=
  ['(', ')', '+', '-', '*', '/', '^', '%']

/-- The characters that a text without a symbol goes on growing by. -/
def grows (c : Char) : Bool :=
  !(isNumeric c || isBracket c)

/-- The characters that belong to a piece or may separate pieces. -/
def Legible (skipBlanks : Bool) (c : Char) : Prop :=
  isNumeric c = true ∨ c ∈ symbols ∨ skipBlanks = true ∧ Text.isBlank c = true

instance (skipBlanks : Bool) (c : Char) : Decidable (Legible skipBlanks c) :=
  inferInstanceAs (Decidable (_ ∨ _ ∨ _ ∧ _))

theorem isKnown_iff {text : List Char} : isKnown text = true ↔ ∃ c ∈ symbols, text = [c] := by
  unfold isKnown
  rw [Option.isSome_iff_exists]
  constructor
  · rintro ⟨o, h⟩
    obtain ⟨hne, rfl⟩ := Operator.ofSymbol?_eq_some_iff.mp h
    cases o <;> first | exact absurd rfl hne | exact ⟨_, by decide, rfl⟩
  · rintro ⟨c, hc, rfl⟩
    have hall : (symbols.all fun c ↦ (Operator.ofSymbol? [c]).isSome) = true := by decide
    exact Option.isSome_iff_exists.mp (List.all_eq_true.mp hall c hc)

theorem isKnown_singleton {c : Char} : isKnown [c] = true ↔ c ∈ symbols := by
  simp [isKnown_iff]

theorem isNumeric_of_mem_symbols {c : Char} (h : c ∈ symbols) : isNumeric c = false := by
  have hall : (symbols.all fun c ↦ !isNumeric c) = true := by decide
  simpa using List.all_eq_true.mp hall c h

theorem isBlank_of_mem_symbols {c : Char} (h : c ∈ symbols) : Text.isBlank c = false := by
  have hall : (symbols.all fun c ↦ !Text.isBlank c) = true := by decide
  simpa using List.all_eq_true.mp hall c h

theorem isNumeric_of_isBlank {c : Char} (h : Text.isBlank c = true) : isNumeric c = false := by
  have hpoint : c ≠ '.' := by
    rintro rfl
    revert h
    decide
  simp [isNumeric, Text.isDigit_of_isBlank h, hpoint]

/-- A known symbol does not grow. -/
theorem grow_known {text : List Char} (h : isKnown text = true) (rest : List Char) :
    grow text rest = (text, rest) := by
  cases rest with
  | nil => rfl
  | cons c rest => simp [grow, h]

/-- A text that starts no symbol grows up to the next number or bracket. -/
theorem grow_unknown {text : List Char} (hne : text ≠ []) (h : isKnown text = false)
    (rest : List Char) :
    grow text rest = (text ++ rest.takeWhile grows, rest.dropWhile grows) := by
  induction rest generalizing text with
  | nil => simp [grow]
  | cons c rest ih =>
    rw [grow, h, Bool.false_or]
    cases hc : isNumeric c || isBracket c with
    | true =>
      have hgrows : grows c = false := by simp only [grows, hc, Bool.not_true]
      simp [hgrows]
    | false =>
      have hgrows : grows c = true := by simp only [grows, hc, Bool.not_false]
      have hlong : isKnown (text ++ [c]) = false := by
        rw [Bool.eq_false_iff, Ne, isKnown_iff]
        rintro ⟨d, _, hd⟩
        have hlength := congrArg List.length hd
        have hpos := List.length_pos_of_ne_nil hne
        simp only [List.length_append, List.length_cons, List.length_nil] at hlength
        omega
      rw [if_neg Bool.false_ne_true, ih (by simp) hlong]
      simp [hgrows]

section Equations

variable {skipBlanks : Bool} {position : Nat} {c : Char} {rest : List Char}

theorem cut_run {run : List Char} (hne : run ≠ []) (hrun : ∀ c ∈ run, isNumeric c = true)
    (hrest : ∀ c ∈ rest.head?, isNumeric c = false) :
    cut skipBlanks position (run ++ rest) =
      (cut skipBlanks (position + run.length) rest).map (run :: ·) := by
  cases run with
  | nil => exact absurd rfl hne
  | cons d ds =>
    have htail : ∀ c ∈ ds, isNumeric c = true := fun c hc ↦ hrun c (List.mem_cons_of_mem _ hc)
    have hstop : rest.takeWhile isNumeric = [] ∧ rest.dropWhile isNumeric = rest := by
      cases rest with
      | nil => exact ⟨rfl, rfl⟩
      | cons c rest => simp [hrest c rfl]
    have htake : (ds ++ rest).takeWhile isNumeric = ds := by
      rw [List.takeWhile_append_of_pos htail, hstop.1, List.append_nil]
    have hdrop : (ds ++ rest).dropWhile isNumeric = rest := by
      rw [List.dropWhile_append_of_pos htail, hstop.2]
    rw [List.cons_append, cut, if_pos (hrun d List.mem_cons_self)]
    simp only [htake, hdrop]

theorem cut_blank (hskip : skipBlanks = true) (h : Text.isBlank c = true) :
    cut skipBlanks position (c :: rest) = cut skipBlanks (position + 1) rest := by
  rw [cut]
  simp [isNumeric_of_isBlank h, hskip, h]

theorem cut_symbol (h : c ∈ symbols) :
    cut skipBlanks position (c :: rest) =
      (cut skipBlanks (position + 1) rest).map ([c] :: ·) := by
  have hknown : isKnown [c] = true := isKnown_singleton.mpr h
  rw [cut]
  simp [isNumeric_of_mem_symbols h, isBlank_of_mem_symbols h, grow_known hknown, hknown]

/-- The report about a character that starts nothing reaches up to the next number or bracket. -/
theorem cut_illegible (h : ¬ Legible skipBlanks c) :
    cut skipBlanks position (c :: rest) =
      .error (.unknownSymbol (c :: rest.takeWhile grows) position) := by
  simp only [Legible, not_or, not_and, Bool.not_eq_true] at h
  obtain ⟨hnumeric, hsymbol, hblank⟩ := h
  have hunknown : isKnown [c] = false := by
    rw [Bool.eq_false_iff, Ne, isKnown_singleton]
    exact hsymbol
  have hlong : isKnown (c :: rest.takeWhile grows) = false := by
    rw [Bool.eq_false_iff, Ne, isKnown_iff]
    rintro ⟨d, hd, heq⟩
    obtain ⟨rfl, _⟩ := List.cons_eq_cons.mp heq
    exact hsymbol hd
  have hskip : (skipBlanks && Text.isBlank c) = false := by
    cases hs : skipBlanks with
    | false => rfl
    | true => exact hblank hs
  rw [cut, hnumeric, hskip, grow_unknown (List.cons_ne_nil c []) hunknown rest]
  simp [hlong]

end Equations

/-- Induction over the ways in which a text is cut at its front. -/
@[elab_as_elim]
theorem cut_induction {skipBlanks : Bool} {motive : List Char → Prop} (nil : motive [])
    (run : ∀ run rest, run ≠ [] → (∀ c ∈ run, isNumeric c = true) →
      (∀ c ∈ rest.head?, isNumeric c = false) → motive rest → motive (run ++ rest))
    (blank : ∀ c rest, skipBlanks = true → Text.isBlank c = true → motive rest → motive (c :: rest))
    (symbol : ∀ c rest, c ∈ symbols → motive rest → motive (c :: rest))
    (illegible : ∀ c rest, ¬ Legible skipBlanks c → motive (c :: rest))
    (text : List Char) : motive text :=
  match text with
  | [] => nil
  | c :: rest => by
    by_cases hnumeric : isNumeric c = true
    · have hsplit : (c :: rest.takeWhile isNumeric) ++ rest.dropWhile isNumeric = c :: rest := by
        rw [List.cons_append, List.takeWhile_append_dropWhile]
      rw [← hsplit]
      refine run _ _ (List.cons_ne_nil _ _) ?_ ?_
        (cut_induction nil run blank symbol illegible (rest.dropWhile isNumeric))
      · intro d hd
        rcases List.mem_cons.mp hd with rfl | hd
        · exact hnumeric
        · exact List.all_eq_true.mp List.all_takeWhile d hd
      · intro d hd
        have hhead := List.head?_dropWhile_not isNumeric rest
        rw [Option.mem_def.mp hd] at hhead
        simpa using hhead
    · by_cases hlegible : Legible skipBlanks c
      · rcases hlegible with h | h | ⟨hskip, h⟩
        · exact absurd h hnumeric
        · exact symbol c rest h (cut_induction nil run blank symbol illegible rest)
        · exact blank c rest hskip h (cut_induction nil run blank symbol illegible rest)
      · exact illegible c rest hlegible
termination_by text.length
decreasing_by
  · exact Nat.lt_succ_of_le (length_dropWhile_le isNumeric rest)
  · exact Nat.lt_succ_self _
  · exact Nat.lt_succ_self _

/-- The texts that can be cut into pieces: every run is maximal, and blanks stand where they may. -/
inductive Cuts (skipBlanks : Bool) : List Char → List Piece → Prop where
  | nil : Cuts skipBlanks [] []
  | run {run rest : List Char} {pieces : List Piece} (hne : run ≠ [])
      (hrun : ∀ c ∈ run, isNumeric c = true) (hrest : ∀ c ∈ rest.head?, isNumeric c = false)
      (h : Cuts skipBlanks rest pieces) : Cuts skipBlanks (run ++ rest) (run :: pieces)
  | blank {c : Char} {rest : List Char} {pieces : List Piece} (hskip : skipBlanks = true)
      (hblank : Text.isBlank c = true) (h : Cuts skipBlanks rest pieces) :
      Cuts skipBlanks (c :: rest) pieces
  | symbol {c : Char} {rest : List Char} {pieces : List Piece} (hsymbol : c ∈ symbols)
      (h : Cuts skipBlanks rest pieces) : Cuts skipBlanks (c :: rest) ([c] :: pieces)

theorem cut_of_cuts {skipBlanks : Bool} {text : List Char} {pieces : List Piece}
    (h : Cuts skipBlanks text pieces) (position : Nat) :
    cut skipBlanks position text = .ok pieces := by
  induction h generalizing position with
  | nil => rw [cut]
  | run hne hrun hrest h ih =>
    rw [cut_run hne hrun hrest, ih]
    rfl
  | blank hskip hblank h ih => rw [cut_blank hskip hblank, ih]
  | symbol hsymbol h ih =>
    rw [cut_symbol hsymbol, ih]
    rfl

theorem exists_cuts {skipBlanks : Bool} {text : List Char}
    (h : ∀ c ∈ text, Legible skipBlanks c) : ∃ pieces, Cuts skipBlanks text pieces := by
  induction text using cut_induction with
  | nil => exact ⟨[], .nil⟩
  | run run rest hne hrun hrest ih =>
    obtain ⟨pieces, hpieces⟩ := ih fun c hc ↦ h c (List.mem_append_right _ hc)
    exact ⟨run :: pieces, .run hne hrun hrest hpieces⟩
  | blank c rest hskip hblank ih =>
    obtain ⟨pieces, hpieces⟩ := ih fun c hc ↦ h c (List.mem_cons_of_mem _ hc)
    exact ⟨pieces, .blank hskip hblank hpieces⟩
  | symbol c rest hsymbol ih =>
    obtain ⟨pieces, hpieces⟩ := ih fun c hc ↦ h c (List.mem_cons_of_mem _ hc)
    exact ⟨[c] :: pieces, .symbol hsymbol hpieces⟩
  | illegible c rest hc => exact absurd (h c List.mem_cons_self) hc

/-! ## What stops the cutting -/

section Reports

/-- Texts that no number and no bracket interrupts. -/
def Uninterrupted (text : List Char) : Prop :=
  ∀ c ∈ text, isNumeric c = false ∧ isBracket c = false

/-- A report quotes the longest uninterrupted part of a text that starts at its first illegible
character. -/
structure Reported (skipBlanks : Bool) (text quoted : List Char) (position : Nat) : Prop where
  illegible : ∃ c ∈ text[position]?, ¬ Legible skipBlanks c
  legible : ∀ c ∈ text.take position, Legible skipBlanks c
  starts : quoted <+: text.drop position
  uninterrupted : Uninterrupted quoted
  longest : ∀ longer, longer <+: text.drop position → Uninterrupted longer →
    longer.length ≤ quoted.length

variable {skipBlanks : Bool} {text quoted : List Char} {position : Nat}

theorem grows_iff {c : Char} : grows c = true ↔ isNumeric c = false ∧ isBracket c = false := by
  simp [grows]

theorem uninterrupted_iff : Uninterrupted text ↔ ∀ c ∈ text, grows c = true := by
  simp only [Uninterrupted, grows_iff]

/-- Of the starts of a text, the longest one that passes a test is found by taking characters
while they pass. -/
theorem length_le_takeWhile {front : List Char} (hstarts : front <+: text)
    (h : Uninterrupted front) : front.length ≤ (text.takeWhile grows).length := by
  obtain ⟨rest, rfl⟩ := hstarts
  rw [List.takeWhile_append_of_pos (uninterrupted_iff.mp h), List.length_append]
  exact Nat.le_add_right _ _

theorem grows_of_not_legible {c : Char} (h : ¬ Legible skipBlanks c) : grows c = true := by
  have hsymbol : c ∉ symbols := fun hmem ↦ h (.inr (.inl hmem))
  have hnumeric : isNumeric c = false := by
    rw [Bool.eq_false_iff]
    exact fun hnumeric ↦ h (.inl hnumeric)
  have hbracket : isBracket c = false := by
    rw [isBracket, Bool.or_eq_false_iff, beq_eq_false_iff_ne, beq_eq_false_iff_ne]
    constructor
    · rintro rfl
      exact hsymbol (by decide)
    · rintro rfl
      exact hsymbol (by decide)
  exact grows_iff.mpr ⟨hnumeric, hbracket⟩

/-- The report on a text that starts with an illegible character. -/
theorem reported_cons {c : Char} (h : ¬ Legible skipBlanks c) (rest : List Char) :
    Reported skipBlanks (c :: rest) (c :: rest.takeWhile grows) 0 := by
  have htake : (c :: rest).takeWhile grows = c :: rest.takeWhile grows :=
    List.takeWhile_cons_of_pos (grows_of_not_legible h)
  rw [← htake]
  exact ⟨⟨c, rfl, h⟩, fun d hd ↦ absurd hd List.not_mem_nil, List.takeWhile_prefix grows,
    uninterrupted_iff.mpr fun d hd ↦ List.all_eq_true.mp List.all_takeWhile d hd,
    fun longer ↦ length_le_takeWhile⟩

/-- Behind legible characters the report is the same, at its place in the whole. -/
theorem Reported.behind {front : List Char} (h : Reported skipBlanks text quoted position)
    (hfront : ∀ c ∈ front, Legible skipBlanks c) :
    Reported skipBlanks (front ++ text) quoted (front.length + position) := by
  have hdrop : (front ++ text).drop (front.length + position) = text.drop position := by
    rw [← List.drop_drop, List.drop_left]
  have hplace : (front ++ text)[front.length + position]? = text[position]? := by
    rw [List.getElem?_append_right (Nat.le_add_right _ _), Nat.add_sub_cancel_left]
  refine ⟨hplace ▸ h.illegible, ?_, hdrop ▸ h.starts, h.uninterrupted, hdrop ▸ h.longest⟩
  rw [List.take_length_add_append]
  exact List.forall_mem_append.mpr ⟨hfront, h.legible⟩

/-- Cutting stops with a report, wherever the text starts. -/
def Stops (skipBlanks : Bool) (text : List Char) : Prop :=
  ∃ quoted position, Reported skipBlanks text quoted position ∧
    ∀ start, cut skipBlanks start text = .error (.unknownSymbol quoted (start + position))

/-- What stops behind legible characters that are cut off stops the whole. -/
theorem Stops.behind {front : List Char} (h : Stops skipBlanks text)
    (hfront : ∀ c ∈ front, Legible skipBlanks c)
    (hcut : ∀ start fault, cut skipBlanks (start + front.length) text = .error fault →
      cut skipBlanks start (front ++ text) = .error fault) : Stops skipBlanks (front ++ text) := by
  obtain ⟨quoted, position, hreported, herror⟩ := h
  refine ⟨quoted, front.length + position, hreported.behind hfront, fun start ↦ ?_⟩
  rw [← Nat.add_assoc]
  exact hcut start _ (herror (start + front.length))

/-- Cutting stops at the first illegible character. -/
theorem stops_of_not_legible (h : ¬ ∀ c ∈ text, Legible skipBlanks c) : Stops skipBlanks text := by
  have hrest {front rest : List Char} (hfront : ∀ c ∈ front, Legible skipBlanks c)
      (hwhole : ¬ ∀ c ∈ front ++ rest, Legible skipBlanks c) :
      ¬ ∀ c ∈ rest, Legible skipBlanks c :=
    fun hall ↦ hwhole (List.forall_mem_append.mpr ⟨hfront, hall⟩)
  induction text using cut_induction with
  | nil => exact absurd (fun c hc ↦ absurd hc List.not_mem_nil) h
  | run run rest hne hrun hhead ih =>
    have hlegible : ∀ c ∈ run, Legible skipBlanks c := fun c hc ↦ .inl (hrun c hc)
    refine (ih (hrest hlegible h)).behind hlegible fun start fault herror ↦ ?_
    rw [cut_run hne hrun hhead, herror]
    rfl
  | blank c rest hskip hblank ih =>
    have hlegible : ∀ d ∈ [c], Legible skipBlanks d :=
      List.forall_mem_singleton.mpr (.inr (.inr ⟨hskip, hblank⟩))
    refine (ih (hrest hlegible h)).behind hlegible fun start fault herror ↦ ?_
    exact (cut_blank hskip hblank).trans herror
  | symbol c rest hsymbol ih =>
    have hlegible : ∀ d ∈ [c], Legible skipBlanks d :=
      List.forall_mem_singleton.mpr (.inr (.inl hsymbol))
    refine (ih (hrest hlegible h)).behind hlegible fun start fault herror ↦ ?_
    rw [List.length_singleton] at herror
    rw [List.singleton_append, cut_symbol hsymbol, herror]
    rfl
  | illegible c rest hc => exact ⟨_, 0, reported_cons hc rest, fun start ↦ cut_illegible hc⟩

end Reports

/-- Cutting succeeds exactly on the legible texts, with the pieces that they are cut into. -/
theorem cut_eq_ok_iff {skipBlanks : Bool} {text : List Char} {pieces : List Piece}
    {position : Nat} : cut skipBlanks position text = .ok pieces ↔ Cuts skipBlanks text pieces := by
  refine ⟨fun h ↦ ?_, fun h ↦ cut_of_cuts h position⟩
  by_cases hlegible : ∀ c ∈ text, Legible skipBlanks c
  · obtain ⟨others, hothers⟩ := exists_cuts hlegible
    have heq := h.symm.trans (cut_of_cuts hothers position)
    cases heq
    exact hothers
  · obtain ⟨_, _, _, herror⟩ := stops_of_not_legible hlegible
    cases h.symm.trans (herror position)

/-- An expression has pieces exactly if it is cut into at least one. -/
theorem ofText_eq_ok_iff {skipBlanks : Bool} {text : List Char} {pieces : List Piece} :
    ofText skipBlanks text = .ok pieces ↔ Cuts skipBlanks text pieces ∧ pieces ≠ [] := by
  rw [← @cut_eq_ok_iff _ _ _ 0, ofText]
  cases cut skipBlanks 0 text with
  | error fault => simp
  | ok others =>
    cases others with
    | nil =>
      simp only [reduceCtorEq, Except.ok.injEq, false_iff, not_and, not_not]
      exact Eq.symm
    | cons piece rest =>
      simp only [Except.ok.injEq, iff_self_and]
      rintro rfl
      exact List.cons_ne_nil _ _

end Reckon.Piece
