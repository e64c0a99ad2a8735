import Mathlib.Data.List.Chain
import Reckon.Proofs.Equation.Faults

/-!
# Pieces and the gaps around them

A text with pieces holds them in order, with a gap before the first and one behind each. A gap
holds blanks, if blanks are dropped, and nothing otherwise; between two runs of numeric characters
it is not empty. Every text of this form is cut into just its pieces. So blanks may be put in and
taken out wherever this neither tears a run apart nor joins two runs.
-/

namespace Reckon.Piece

/-- Runs of numeric characters, maximal or not. -/
def IsRun (piece : Piece) : Prop :=
  piece ≠ [] ∧ ∀ c ∈ piece, isNumeric c = true

def IsSymbol (piece : Piece) : Prop :=
  ∃ c ∈ symbols, piece = [c]

-- A search over all characters would decide these as well, but not in any useful time.
instance (piece : Piece) : Decidable piece.IsRun :=
  decidable_of_iff (piece ≠ [] ∧ piece.all isNumeric = true)
    (and_congr_right fun _ ↦ List.all_eq_true)

instance (piece : Piece) : Decidable piece.IsSymbol :=
  decidable_of_iff (isKnown piece = true) isKnown_iff

/-- The text of a first gap and of pieces, each with the gap behind it. -/
def spaced (lead : List Char) (entries : List (Piece × List Char)) : List Char :=
  lead ++ entries.flatMap fun entry ↦ entry.1 ++ entry.2

/-- Runs and symbols with gaps that may stand there and that keep the runs apart. -/
structure Spacing (skipBlanks : Bool) (lead : List Char) (entries : List (Piece × List Char)) :
    Prop where
  kinds : ∀ entry ∈ entries, entry.1.IsRun ∨ entry.1.IsSymbol
  gaps : ∀ gap ∈ lead :: entries.map Prod.snd,
    ∀ c ∈ gap, skipBlanks = true ∧ Text.isBlank c = true
  apart : entries.IsChain fun entry next ↦ entry.1.IsRun → next.1.IsRun → entry.2 ≠ []

/-- No run goes on from one text into the other. -/
def Parted (front back : List Char) : Prop :=
  ∀ c ∈ front.getLast?, ∀ d ∈ back.head?, isNumeric c = false ∨ isNumeric d = false

theorem not_isRun_of_isSymbol {piece : Piece} (h : piece.IsSymbol) : ¬ piece.IsRun := by
  obtain ⟨c, hc, rfl⟩ := h
  intro hrun
  have hnumeric := hrun.2 c (List.mem_singleton_self c)
  rw [isNumeric_of_mem_symbols hc] at hnumeric
  cases hnumeric

variable {skipBlanks : Bool} {text : List Char} {pieces : List Piece} {lead : List Char}
  {entries : List (Piece × List Char)}

theorem spaced_cons (lead : List Char) (entry : Piece × List Char)
    (entries : List (Piece × List Char)) :
    spaced lead (entry :: entries) = lead ++ (entry.1 ++ spaced entry.2 entries) := by
  simp only [spaced, List.flatMap_cons, List.append_assoc]

/-! ## From pieces to gaps -/

theorem Spacing.blank {c : Char} (h : Spacing skipBlanks lead entries) (hskip : skipBlanks = true)
    (hblank : Text.isBlank c = true) : Spacing skipBlanks (c :: lead) entries where
  kinds := h.kinds
  gaps := by
    obtain ⟨hlead, hgaps⟩ := List.forall_mem_cons.mp h.gaps
    exact List.forall_mem_cons.mpr ⟨List.forall_mem_cons.mpr ⟨⟨hskip, hblank⟩, hlead⟩, hgaps⟩
  apart := h.apart

/-- A piece in front; the first gap now stands behind it. -/
theorem Spacing.cons {piece : Piece} (h : Spacing skipBlanks lead entries)
    (hpiece : piece.IsRun ∨ piece.IsSymbol)
    (hnext : ∀ next ∈ entries.head?, piece.IsRun → next.1.IsRun → lead ≠ []) :
    Spacing skipBlanks [] ((piece, lead) :: entries) where
  kinds := List.forall_mem_cons.mpr ⟨hpiece, h.kinds⟩
  gaps := List.forall_mem_cons.mpr ⟨fun _ hc ↦ absurd hc List.not_mem_nil, h.gaps⟩
  apart := List.isChain_cons.mpr ⟨hnext, h.apart⟩

theorem exists_spacing (h : Cuts skipBlanks text pieces) :
    ∃ lead entries, entries.map Prod.fst = pieces ∧ Spacing skipBlanks lead entries ∧
      spaced lead entries = text := by
  induction h with
  | nil => exact ⟨[], [], rfl, ⟨by simp, by simp, List.isChain_nil⟩, rfl⟩
  | @run run rest pieces hne hrun hrest h ih =>
    obtain ⟨lead, entries, rfl, hspacing, rfl⟩ := ih
    refine ⟨[], (run, lead) :: entries, rfl, hspacing.cons (.inl ⟨hne, hrun⟩) ?_,
      spaced_cons [] (run, lead) entries⟩
    -- Without a gap the next run would go on from this one, which is maximal.
    rintro next hnext _ hnextRun rfl
    obtain ⟨others, rfl⟩ := List.head?_eq_some_iff.mp hnext
    obtain ⟨d, ds, hd⟩ := List.exists_cons_of_ne_nil hnextRun.1
    have hhead : d ∈ (spaced [] (next :: others)).head? := by
      rw [spaced_cons, hd]
      rfl
    have hnumeric := hnextRun.2 d (hd ▸ List.mem_cons_self)
    rw [hrest d hhead] at hnumeric
    cases hnumeric
  | @blank c rest pieces hskip hblank h ih =>
    obtain ⟨lead, entries, hpieces, hspacing, rfl⟩ := ih
    exact ⟨c :: lead, entries, hpieces, hspacing.blank hskip hblank, rfl⟩
  | @symbol c rest pieces hsymbol h ih =>
    obtain ⟨lead, entries, rfl, hspacing, rfl⟩ := ih
    have hkind : IsSymbol [c] := ⟨c, hsymbol, rfl⟩
    exact ⟨[], ([c], lead) :: entries, rfl,
      hspacing.cons (.inr hkind) fun _ _ hrun ↦ absurd hrun (not_isRun_of_isSymbol hkind),
      spaced_cons [] ([c], lead) entries⟩

/-! ## From gaps to pieces -/

/-- Blanks in front of a text are dropped. -/
theorem Cuts.behind_gap {gap : List Char} (h : Cuts skipBlanks text pieces)
    (hgap : ∀ c ∈ gap, skipBlanks = true ∧ Text.isBlank c = true) :
    Cuts skipBlanks (gap ++ text) pieces := by
  induction gap with
  | nil => exact h
  | cons c gap ih =>
    obtain ⟨⟨hskip, hblank⟩, hrest⟩ := List.forall_mem_cons.mp hgap
    exact .blank hskip hblank (ih hrest)

theorem Spacing.head_not_numeric (h : Spacing skipBlanks lead entries)
    (hlead : ∀ next ∈ entries.head?, next.1.IsRun → lead ≠ []) :
    ∀ c ∈ (spaced lead entries).head?, isNumeric c = false := by
  intro c hc
  cases lead with
  | cons d lead =>
    cases hc
    exact isNumeric_of_isBlank ((List.forall_mem_cons.mp h.gaps).1 c List.mem_cons_self).2
  | nil =>
    cases entries with
    | nil => cases hc
    | cons next others =>
      rcases h.kinds next List.mem_cons_self with hrun | ⟨d, hd, hnext⟩
      · exact absurd rfl (hlead next rfl hrun)
      · rw [spaced_cons, hnext] at hc
        cases hc
        exact isNumeric_of_mem_symbols hd

theorem Spacing.cuts (h : Spacing skipBlanks lead entries) :
    Cuts skipBlanks (spaced lead entries) (entries.map Prod.fst) := by
  induction entries generalizing lead with
  | nil => exact Cuts.nil.behind_gap (List.forall_mem_cons.mp h.gaps).1
  | cons entry entries ih =>
    obtain ⟨piece, gap⟩ := entry
    obtain ⟨hpiece, hkinds⟩ := List.forall_mem_cons.mp h.kinds
    obtain ⟨hlead, hgaps⟩ := List.forall_mem_cons.mp h.gaps
    obtain ⟨hnext, hapart⟩ := List.isChain_cons.mp h.apart
    have hrest : Spacing skipBlanks gap entries := ⟨hkinds, hgaps, hapart⟩
    rw [spaced_cons]
    apply Cuts.behind_gap _ hlead
    rcases hpiece with hrun | ⟨c, hc, rfl⟩
    · have hhead := hrest.head_not_numeric fun next hmem ↦ hnext next hmem hrun
      exact .run hrun.1 hrun.2 hhead (ih hrest)
    · exact .symbol hc (ih hrest)

/-- A text is cut into pieces exactly if it holds them with gaps around them. -/
theorem cuts_iff_exists_spacing :
    Cuts skipBlanks text pieces ↔ ∃ lead entries, entries.map Prod.fst = pieces ∧
      Spacing skipBlanks lead entries ∧ spaced lead entries = text := by
  refine ⟨exists_spacing, ?_⟩
  rintro ⟨lead, entries, rfl, hspacing, rfl⟩
  exact hspacing.cuts

/-! ## What is kept -/

theorem Cuts.kinds (h : Cuts skipBlanks text pieces) :
    ∀ piece ∈ pieces, piece.IsRun ∨ piece.IsSymbol := by
  obtain ⟨lead, entries, rfl, hspacing, rfl⟩ := exists_spacing h
  exact List.forall_mem_map.mpr hspacing.kinds

theorem isBlank_of_isNumeric {c : Char} (h : isNumeric c = true) : Text.isBlank c = false := by
  rw [Bool.eq_false_iff]
  intro hblank
  rw [isNumeric_of_isBlank hblank] at h
  cases h

theorem Cuts.isBlank_eq_false (h : Cuts skipBlanks text pieces) :
    ∀ piece ∈ pieces, ∀ c ∈ piece, Text.isBlank c = false := by
  intro piece hpiece c hc
  rcases h.kinds piece hpiece with hrun | ⟨d, hd, rfl⟩
  · exact isBlank_of_isNumeric (hrun.2 c hc)
  · rw [List.mem_singleton.mp hc]
    exact isBlank_of_mem_symbols hd

/-- The pieces hold what is not dropped. -/
theorem Cuts.flatten_eq (h : Cuts skipBlanks text pieces) :
    pieces.flatten = text.filter fun c ↦ !(skipBlanks && Text.isBlank c) := by
  induction h with
  | nil => rfl
  | @run run rest pieces hne hrun hrest h ih =>
    have hkept : run.filter (fun c ↦ !(skipBlanks && Text.isBlank c)) = run := by
      apply List.filter_eq_self.mpr
      intro c hc
      rw [isBlank_of_isNumeric (hrun c hc), Bool.and_false, Bool.not_false]
    rw [List.flatten_cons, ih, List.filter_append, hkept]
  | blank hskip hblank h ih =>
    rw [ih, List.filter_cons_of_neg]
    rw [hskip, hblank]
    decide
  | symbol hsymbol h ih =>
    rw [List.flatten_cons, ih, List.filter_cons_of_pos]
    · rfl
    · rw [isBlank_of_mem_symbols hsymbol, Bool.and_false, Bool.not_false]

/-! ## Texts side by side -/

theorem Cuts.unique {others : List Piece} (h : Cuts skipBlanks text pieces)
    (h' : Cuts skipBlanks text others) : pieces = others :=
  Except.ok.inj ((cut_of_cuts h 0).symm.trans (cut_of_cuts h' 0))

theorem Parted.tail (front : List Char) {rest back : List Char}
    (h : Parted (front ++ rest) back) : Parted rest back := by
  intro c hc
  refine h c ?_
  rw [Option.mem_def] at hc ⊢
  rw [List.getLast?_append, hc]
  rfl

theorem Parted.gap {front gap back : List Char} (h : Parted front back)
    (hgap : ∀ c ∈ gap, Text.isBlank c = true) : Parted front (gap ++ back) := by
  cases gap with
  | nil => exact h
  | cons c gap =>
    rintro _ _ _ ⟨⟩
    exact .inr (isNumeric_of_isBlank (hgap c List.mem_cons_self))

/-- Texts of which none continues a run of the other are cut one after the other. -/
theorem Cuts.append {front back : List Char} {others : List Piece}
    (hfront : Cuts skipBlanks front pieces) (hback : Cuts skipBlanks back others)
    (hparted : Parted front back) : Cuts skipBlanks (front ++ back) (pieces ++ others) := by
  induction hfront with
  | nil => exact hback
  | @run run rest pieces hne hrun hrest h ih =>
    have hhead : ∀ d ∈ (rest ++ back).head?, isNumeric d = false := by
      intro d hd
      cases rest with
      | cons first rest => exact hrest d hd
      | nil =>
        have hlast := run.getLast?_eq_some_getLast hne
        rw [List.append_nil] at hparted
        rcases hparted _ hlast d hd with hnone | hnone
        · rw [hrun _ (List.getLast_mem hne)] at hnone
          cases hnone
        · exact hnone
    rw [List.append_assoc]
    exact .run hne hrun hhead (ih (hparted.tail run))
  | @blank c rest pieces hskip hblank h ih =>
    exact .blank hskip hblank (ih (Parted.tail [c] hparted))
  | @symbol c rest pieces hsymbol h ih =>
    exact .symbol hsymbol (ih (Parted.tail [c] hparted))

/-- Blanks between texts change no piece unless they tear a run apart or keep two runs apart. -/
theorem cuts_insert_blanks {front gap back : List Char} (hgap : ∀ c ∈ gap, Text.isBlank c = true)
    (hparted : Parted front back) :
    Cuts true (front ++ gap ++ back) pieces ↔ Cuts true (front ++ back) pieces := by
  have hdropped : ∀ c ∈ gap, true = true ∧ Text.isBlank c = true := fun c hc ↦ ⟨rfl, hgap c hc⟩
  -- Legible parts have pieces of their own, which are the pieces of either whole.
  have hwhole (h : ∀ c ∈ front ++ back, Legible true c) :
      ∃ found, Cuts true (front ++ back) found ∧ Cuts true (front ++ gap ++ back) found := by
    obtain ⟨hlegibleFront, hlegibleBack⟩ := List.forall_mem_append.mp h
    obtain ⟨before, hbefore⟩ := exists_cuts hlegibleFront
    obtain ⟨behind, hbehind⟩ := exists_cuts hlegibleBack
    refine ⟨before ++ behind, hbefore.append hbehind hparted, ?_⟩
    rw [List.append_assoc]
    exact hbefore.append (hbehind.behind_gap hdropped) (hparted.gap hgap)
  constructor
  · intro h
    obtain ⟨hlegible, hlegibleBack⟩ := List.forall_mem_append.mp h.legible
    have hlegibleFront := (List.forall_mem_append.mp hlegible).1
    obtain ⟨found, hjoined, hspaced⟩ :=
      hwhole (List.forall_mem_append.mpr ⟨hlegibleFront, hlegibleBack⟩)
    rwa [h.unique hspaced]
  · intro h
    obtain ⟨found, hjoined, hspaced⟩ := hwhole h.legible
    rwa [h.unique hjoined]

/-- A text has pieces exactly if it holds them, runs kept apart, with gaps around them; then they
are its symbols and its maximal runs, and all that is not dropped. Blanks may be put in or taken
out everywhere but inside a run and between runs that would join. -/
theorem ofText_inverts_spacing (skipBlanks : Bool) (text : List Char) (pieces : List Piece) :
    (ofText skipBlanks text = .ok pieces ↔
        pieces ≠ [] ∧ ∃ lead entries, entries.map Prod.fst = pieces ∧
          Spacing skipBlanks lead entries ∧ spaced lead entries = text) ∧
      (ofText skipBlanks text = .ok pieces →
        (∀ piece ∈ pieces, (piece.IsRun ∨ piece.IsSymbol) ∧ ∀ c ∈ piece, Text.isBlank c = false) ∧
          runs text = pieces.filter (·.any isNumeric) ∧
          pieces.flatten = text.filter fun c ↦ !(skipBlanks && Text.isBlank c)) ∧
      (∀ lead entries, entries ≠ [] → Spacing true lead entries →
        ofText true (spaced lead entries) = .ok (entries.map Prod.fst)) ∧
      ∀ front gap back, (∀ c ∈ gap, Text.isBlank c = true) → Parted front back →
        (ofText true (front ++ gap ++ back) = .ok pieces ↔
          ofText true (front ++ back) = .ok pieces) := by
  refine ⟨?_, fun h ↦ ?_, fun lead entries hne hspacing ↦ ?_, fun front gap back hgap hparted ↦ ?_⟩
  · rw [ofText_eq_ok_iff, cuts_iff_exists_spacing]
    exact and_comm
  · have hcuts := (ofText_eq_ok_iff.mp h).1
    exact ⟨fun piece hpiece ↦ ⟨hcuts.kinds piece hpiece, hcuts.isBlank_eq_false piece hpiece⟩,
      hcuts.runs_eq, hcuts.flatten_eq⟩
  · exact ofText_eq_ok_iff.mpr ⟨hspacing.cuts, by simpa using hne⟩
  · rw [ofText_eq_ok_iff, ofText_eq_ok_iff, cuts_insert_blanks hgap hparted]

theorem ofText_inverts_spacing_product :
    (Spacing true ['\t'] [(['1', '2'], [' ', '\n']), (['.'], []), (['*'], []), (['3'], [' '])] ∧
      (∀ c ∈ [' ', '\u00a0'], Text.isBlank c = true) ∧ Parted ['1', '*'] ['3']) ∧
    ofText true "\t12 \n.*3 ".toList = .ok [['1', '2'], ['.'], ['*'], ['3']] ∧
    ofText true "1* \u00a03".toList = .ok [['1'], ['*'], ['3']] := by
  have hgaps : ∀ gap ∈ [['\t'], [' ', '\n'], [], [], [' ']],
      ∀ c ∈ gap, true = true ∧ Text.isBlank c = true := by
    intro gap hgap c hc
    have hall : ∀ gap ∈ [['\t'], [' ', '\n'], [], [], [' ']], Text.allBlank gap = true := by decide
    exact ⟨rfl, List.all_eq_true.mp (hall gap hgap) c hc⟩
  have hspacing : Spacing true ['\t']
      [(['1', '2'], [' ', '\n']), (['.'], []), (['*'], []), (['3'], [' '])] :=
    ⟨by decide +kernel, hgaps, by decide +kernel⟩
  have hblank : ∀ c ∈ [' ', '\u00a0'], Text.isBlank c = true := List.all_eq_true.mp rfl
  have hparted : Parted ['1', '*'] ['3'] := by
    rintro _ ⟨⟩ _ _
    exact .inl rfl
  have htight : ofText true (['1', '*'] ++ ['3']) = .ok [['1'], ['*'], ['3']] := by
    decide +kernel
  exact ⟨⟨hspacing, hblank, hparted⟩,
    (ofText_inverts_spacing true [] []).2.2.1 _ _ (List.cons_ne_nil _ _) hspacing,
    ((ofText_inverts_spacing true [] _).2.2.2 _ _ _ hblank hparted).mpr htight⟩

end Reckon.Piece
