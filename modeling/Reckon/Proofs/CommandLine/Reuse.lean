import Reckon.Proofs.Batch.Saved
import Reckon.Proofs.CommandLine.Agreement

/-!
# Results as input

A run that saves its results leaves a sheet that another run can load. If the expressions come
back from it, the other run values the same expressions in the same order, so with the same
options and the same writer it saves the same text again. With a writer that quotes carriage
returns they always come back.
-/

namespace Reckon.CommandLine

open Batch

/-- A run on a file that saves its results. -/
def runInto (config : Config) (files : Files) (arguments : Arguments) (path target : String) :
    Outcome :=
  runOn config files { arguments with outputPath := some target } path

/-- The results of expressions as they are saved, by a writer that may quote carriage returns. -/
def savedResults (config : Config) (quotesReturn : Bool) (arguments : Arguments)
    (expressions : List String) : String :=
  String.ofList (csv config quotesReturn (expressions.map (Row.alone arguments.reading)))

section Runs

variable {config : Config} {arguments : Arguments} {least : Nat} {expressions : List String}

theorem runInto_saved {files : Files} {path target : String}
    (hlevel : threshold config arguments.logLevel = .ok least) (hcheck : config.check = .ok ())
    (hpath : path ≠ "") (htarget : target ≠ "")
    (hload : ExpressionFile.load config none path (files.read path) = .ok expressions)
    (hsaved : saveFailure? files target = none) :
    (runInto config files arguments path target).saved =
      some (target, savedResults config files.quotesReturn arguments expressions) := by
  have houtput : Arguments.path? (some target) = some target := by
    simp [Arguments.path?, htarget]
  have htells := (@runOn_of_load config files { arguments with outputPath := some target } least
    path expressions hlevel hcheck hpath hload (by simpa [houtput] using hsaved)).2
  simp only [Outcome.Tells, houtput] at htells
  exact htells.2

theorem load_savedResults_iff {path : String} (hsheet : ExpressionFile.isSheet path = true)
    (hcolumns : UsualColumns config) {quotesReturn : Bool} :
    ExpressionFile.load config none path
          (.ok (savedResults config quotesReturn arguments expressions).toUTF8) =
        .ok expressions ↔
      ∀ expression ∈ expressions, ComesBack quotesReturn expression := by
  have hexpressions : (expressions.map (Row.alone arguments.reading)).map (·.expression) =
      expressions := by
    rw [List.map_map]
    exact List.map_id expressions
  have hiff := @load_csv_iff quotesReturn config (expressions.map (Row.alone arguments.reading))
    path hsheet hcolumns
  rw [hexpressions, List.forall_mem_map] at hiff
  exact hiff

/-- Saved results give all their expressions back if the writer quotes carriage returns, and
otherwise just if every expression with a carriage return holds a comma, a quote or a line feed as
well. Then a second run with the same options saves the same text. -/
theorem reload_iff_comesBack {path : String}
    (hlevel : threshold config arguments.logLevel = .ok least) (hcheck : config.check = .ok ())
    (hcolumns : UsualColumns config) (hsheet : ExpressionFile.isSheet path = true)
    (quotesReturn : Bool) (expressions : List String) :
    (∀ files source target, files.quotesReturn = quotesReturn → source ≠ "" → target ≠ "" →
      ExpressionFile.load config none source (files.read source) = .ok expressions →
      saveFailure? files target = none →
      (runInto config files arguments source target).saved =
        some (target, savedResults config quotesReturn arguments expressions)) ∧
    (quotesReturn = true →
      ExpressionFile.load config none path
        (.ok (savedResults config quotesReturn arguments expressions).toUTF8) = .ok expressions) ∧
    (ExpressionFile.load config none path
        (.ok (savedResults config quotesReturn arguments expressions).toUTF8) = .ok expressions ↔
      ∀ expression ∈ expressions, ComesBack quotesReturn expression) ∧
    ((∀ expression ∈ expressions, ComesBack quotesReturn expression) →
      ∀ files target, files.quotesReturn = quotesReturn → target ≠ "" →
        files.read path = .ok (savedResults config quotesReturn arguments expressions).toUTF8 →
        saveFailure? files target = none →
        (runInto config files arguments path target).saved =
          some (target, savedResults config quotesReturn arguments expressions)) := by
  have hiff := @load_savedResults_iff config arguments expressions path hsheet hcolumns quotesReturn
  refine ⟨?_, ?_, hiff, ?_⟩
  · rintro files source target rfl hsource htarget hload hsaved
    exact runInto_saved hlevel hcheck hsource htarget hload hsaved
  · intro hquotes
    exact hiff.mpr fun _ _ _ ↦ .inr (.inr (.inr hquotes))
  · rintro hback files target rfl htarget hread hsaved
    have hpath : path ≠ "" := by
      rintro rfl
      exact absurd hsheet (by decide +kernel)
    refine runInto_saved hlevel hcheck hpath htarget ?_ hsaved
    rw [hread]
    exact hiff.mpr hback

end Runs

/-- Expressions with a comma and a carriage return, with a quote and a line feed and with a null
character, and an empty one. -/
def reused : List String :=
  ["1+1", "2,\r3", "", "\"4\n", "5\x006"]

/-- A sheet of expressions, and the results that a run saves with them if carriage returns are not
quoted. -/
def reusedFiles : Files where
  read path :=
    .ok (if path = "in.csv" then "expression\n1+1\n\"2,\r3\"\n\"\"\n\"\"\"4\n\"\n5\x006\n"
      else savedResults .default false withOrder reused).toUTF8
  enter := fun _ ↦ .ok ()
  save := fun _ ↦ .ok ()
  quotesReturn := false

theorem reload_iff_comesBack_reused :
    (threshold .default withOrder.logLevel = .ok 20 ∧ Config.default.check = .ok () ∧
      UsualColumns .default ∧ ExpressionFile.isSheet "out.csv" = true) ∧
    (runInto .default reusedFiles withOrder "in.csv" "out.csv").saved =
      some ("out.csv", savedResults .default false withOrder reused) ∧
    ExpressionFile.load .default none "out.csv"
      (.ok (savedResults .default false withOrder reused).toUTF8) = .ok reused ∧
    (runInto .default reusedFiles withOrder "out.csv" "again.csv").saved =
      some ("again.csv", savedResults .default false withOrder reused) ∧
    ExpressionFile.load .default none "out.csv"
      (.ok (savedResults .default true withOrder ["1\r2"]).toUTF8) = .ok ["1\r2"] := by
  have hlevel : threshold .default withOrder.logLevel = .ok 20 := by decide +kernel
  have hcheck : Config.default.check = .ok () := by decide +kernel
  have hcolumns : UsualColumns .default := ⟨rfl, rfl, rfl⟩
  have hsheet : ExpressionFile.isSheet "out.csv" = true := by decide +kernel
  have hload : ExpressionFile.load .default none "in.csv" (reusedFiles.read "in.csv") =
      .ok reused := by
    have hread : reusedFiles.read "in.csv" =
        .ok "expression\n1+1\n\"2,\r3\"\n\"\"\n\"\"\"4\n\"\n5\x006\n".toUTF8 := by
      simp [reusedFiles]
    rw [hread, ExpressionFile.load_toUTF8]
    decide +kernel
  have hback : ∀ expression ∈ reused, ComesBack false expression := by
    simp only [ComesBack]
    decide +kernel
  obtain ⟨hfirst, -, hiff, hagain⟩ :=
    reload_iff_comesBack hlevel hcheck hcolumns hsheet false reused
  obtain ⟨-, hquoted, -, -⟩ := reload_iff_comesBack hlevel hcheck hcolumns hsheet true ["1\r2"]
  exact ⟨⟨hlevel, hcheck, hcolumns, hsheet⟩,
    hfirst reusedFiles "in.csv" "out.csv" rfl (by decide) (by decide) hload rfl, hiff.mpr hback,
    hagain hback reusedFiles "again.csv" rfl (by decide) (by simp [reusedFiles]) rfl,
    hquoted rfl⟩

/-- A carriage return by itself that is saved without quotes ends the record when it is loaded. -/
theorem results_split :
    savedResults .default false withOrder ["1\r2"] =
        "expression,result,error\n1\r2,,InternalConsistencyError\n" ∧
      ExpressionFile.load .default none "out.csv"
        (.ok (savedResults .default false withOrder ["1\r2"]).toUTF8) = .ok ["1", "2"] := by
  have hsplit : savedResults .default false withOrder ["1\r2"] =
      "expression,result,error\n1\r2,,InternalConsistencyError\n" := by decide +kernel
  rw [hsplit, ExpressionFile.load_toUTF8]
  exact ⟨rfl, by decide +kernel⟩

end Reckon.CommandLine
