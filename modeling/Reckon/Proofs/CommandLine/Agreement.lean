import Reckon.CommandLine.Run
import Reckon.Proofs.Batch.Rows
import Reckon.Proofs.Text.Lines

/-!
# Expressions given directly and in a file

Expressions on the command line are read and then valued, with a line of output or a complaint
for each. Expressions in the lines of a file become the rows of a table. Both ways of a run come
to the same for each expression, and to the same exit status: a row holds the value that is
printed, or the kind of the fault that is complained of.
-/

namespace Reckon.CommandLine

open Log

/-- How the expressions of a run are read. -/
def Arguments.reading (arguments : Arguments) : Reading :=
  ⟨!arguments.keepWhitespace, arguments.leftAssociative⟩

/-- What a run with expressions prints for one of them. -/
def printed (rpn : Bool) (reading : Reading) (expression : String) : String :=
  match Equation.ofText reading expression with
  | .error _ => ""
  | .ok equation =>
    match equation.value with
    | .ok x => postfixLine rpn expression equation ++ valueLine x
    | .error _ => postfixLine rpn expression equation

/-- What a run with expressions complains of in one of them. -/
def complaints (reading : Reading) (expression : String) : List Record :=
  match solve reading expression with
  | .ok _ => []
  | .error fault => [invalidRecord expression fault]

/-- The row of an expression beside what is printed for it and what is complained of. If it can be
read, the arguments may ask for a line with its postfix notation. Its value is printed in a line by
itself; its fault is not printed, but complained of. -/
inductive Told (rpn : Bool) (reading : Reading) (expression : String) :
    String × Binary64 × String → String → List Record → Prop where
  | valued {equation : Equation} {x : Binary64}
      (hread : Equation.ofText reading expression = .ok equation) (hvalue : equation.value = .ok x) :
      Told rpn reading expression (expression, x, "")
        ((if rpn then s!"{expression} -> {equation.postfixText}\n" else "") ++
          (String.ofList x.shortestText ++ "\n")) []
  | failed {equation : Equation} {fault : Fault}
      (hread : Equation.ofText reading expression = .ok equation)
      (hvalue : equation.value = .error fault) :
      Told rpn reading expression (expression, .nan, fault.kind.name)
        (if rpn then s!"{expression} -> {equation.postfixText}\n" else "")
        [⟨.program, .error, s!"Invalid expression {Fault.shown expression.toList}: " ++
          s!"{fault.kind.name}: {fault.message}"⟩]
  | unread {fault : Fault} (hread : Equation.ofText reading expression = .error fault) :
      Told rpn reading expression (expression, .nan, fault.kind.name) ""
        [⟨.program, .error, s!"Invalid expression {Fault.shown expression.toList}: " ++
          s!"{fault.kind.name}: {fault.message}"⟩]

theorem told (rpn : Bool) (reading : Reading) (expression : String) :
    Told rpn reading expression (Row.alone reading expression).cells
      (printed rpn reading expression) (complaints reading expression) := by
  rw [Row.cells_alone, printed, complaints]
  cases hread : Equation.ofText reading expression with
  | error fault =>
    rw [show solve reading expression = .error fault from Equation.solveIn_of_error hread]
    exact .unread hread
  | ok equation =>
    rw [show solve reading expression = equation.value from Equation.solveIn_of_ok hread]
    cases hvalue : equation.value with
    | ok x =>
      simp only [hvalue]
      exact .valued hread hvalue
    | error fault =>
      simp only [hvalue]
      exact .failed hread hvalue

/-! ## Expressions given directly -/

theorem level_of_mem_parseRecords {solver : Solver} {expression : String} {record : Record}
    (h : record ∈ parseRecords solver expression) : record.level = .debug := by
  unfold parseRecords at h
  split at h
  · rw [List.mem_singleton.mp h]
  · generalize Working.ofText solver.reading expression = working at h
    cases working <;>
      simp only [Working.records, List.mem_cons, List.not_mem_nil, or_false] at h
    · rw [h]; rfl
    · rcases h with rfl | rfl <;> rfl
    · rcases h with rfl | rfl | rfl <;> rfl

theorem level_of_mem_valueRecords {parsed : Except Fault Built} {record : Record}
    (h : record ∈ valueRecords parsed) : record.level = .debug := by
  unfold valueRecords at h
  split at h
  · unfold Equation.valueRecords at h
    split at h
    · cases h
    · cases h
    · rw [List.mem_singleton.mp h]
  · cases h

/-- Records of the working are not complaints. -/
theorem filter_error_append {records : List Record} (h : ∀ record ∈ records, record.level = .debug)
    (others : List Record) :
    (records ++ others).filter (·.level = .error) = others.filter (·.level = .error) := by
  have hnone : records.filter (·.level = .error) = [] :=
    List.filter_eq_nil_iff.mpr fun record hrecord ↦ by simp [h record hrecord]
  rw [List.filter_append, hnone, List.nil_append]

/-- One expression leaves its output and its complaint. -/
theorem showOne_eq {solver : Solver} (h : solver.Faithful) (rpn : Bool) (expression : String) :
    (showOne rpn solver expression).1.output = printed rpn solver.reading expression ∧
      (showOne rpn solver expression).1.records.filter (·.level = .error) =
        complaints solver.reading expression ∧
      (showOne rpn solver expression).1.failed = (Row.alone solver.reading expression).failed ∧
      (showOne rpn solver expression).2 = (solver.parse expression).2 := by
  have hparse := h.parse_eq expression
  unfold showOne
  generalize solver.parse expression = outcome at hparse ⊢
  obtain ⟨parsed, after⟩ := outcome
  have hworking := filter_error_append fun _ ↦ @level_of_mem_parseRecords solver expression _
  cases parsed with
  | error fault =>
    have hread : Equation.ofText solver.reading expression = .error fault := hparse.symm
    have hsolve : solve solver.reading expression = .error fault := Equation.solveIn_of_error hread
    simp only [printed, complaints, Row.alone, Row.failed, hread, hsolve, hworking]
    exact ⟨trivial, rfl, trivial, trivial⟩
  | ok built =>
    have hread : Equation.ofText solver.reading expression = .ok built.equation := hparse.symm
    have hsolve : solve solver.reading expression = built.equation.value :=
      Equation.solveIn_of_ok hread
    cases hvalue : built.equation.value with
    | ok x =>
      have hquiet := hworking []
      rw [List.append_nil] at hquiet
      simp only [printed, complaints, Row.alone, Row.failed, hread, hsolve, hvalue, hquiet]
      exact ⟨trivial, rfl, trivial, trivial⟩
    | error fault =>
      have hvaluing := filter_error_append fun _ ↦ @level_of_mem_valueRecords (.ok built) _
      simp only [printed, complaints, Row.alone, Row.failed, hread, hsolve, hvalue,
        List.append_assoc, hworking, hvaluing]
      exact ⟨trivial, rfl, trivial, trivial⟩

/-- Some expression has no value. -/
def anyFails (reading : Reading) (expressions : List String) : Bool :=
  expressions.any fun expression ↦ (Row.alone reading expression).failed

theorem anyFails_iff {reading : Reading} {expressions : List String} :
    anyFails reading expressions = true ↔
      ∃ expression ∈ expressions, ∃ fault, solve reading expression = .error fault := by
  simp only [anyFails, List.any_eq_true, Row.failed, Row.alone]
  refine exists_congr fun expression ↦ and_congr_right fun _ ↦ ?_
  cases solve reading expression <;> simp

theorem any_failed_alone (reading : Reading) (expressions : List String) :
    (expressions.map (Row.alone reading)).any (·.failed) = anyFails reading expressions := by
  rw [List.any_map]
  rfl

theorem showAll_cons (rpn : Bool) (solver : Solver) (expression : String) (rest : List String) :
    showAll rpn solver (expression :: rest) =
      (showOne rpn solver expression).1 :: showAll rpn (showOne rpn solver expression).2 rest :=
  rfl

/-- The expressions of a run leave their outputs and their complaints one behind the other. -/
theorem showAll_eq {solver : Solver} (h : solver.Faithful) (rpn : Bool) (expressions : List String) :
    (showAll rpn solver expressions).map (·.output) =
        expressions.map (printed rpn solver.reading) ∧
      ((showAll rpn solver expressions).flatMap (·.records)).filter (·.level = .error) =
        expressions.flatMap (complaints solver.reading) ∧
      (showAll rpn solver expressions).any (·.failed) = anyFails solver.reading expressions := by
  induction expressions generalizing solver with
  | nil => exact ⟨rfl, rfl, rfl⟩
  | cons expression rest ih =>
    obtain ⟨houtput, hrecords, hfailed, hafter⟩ := showOne_eq h rpn expression
    have hrest := ih (h.parse expression)
    rw [solver.reading_parse] at hrest
    obtain ⟨houtputs, hall, hany⟩ := hrest
    rw [showAll_cons, hafter]
    refine ⟨?_, ?_, ?_⟩
    · rw [List.map_cons, List.map_cons, houtput, houtputs]
    · rw [List.flatMap_cons, List.flatMap_cons, List.filter_append, hrecords, hall]
    · rw [List.any_cons, hfailed, hany]
      rfl

/-! ## Both ways of a run -/

/-- The run with expressions instead of a file. -/
def runWith (config : Config) (files : Files) (arguments : Arguments) (expressions : List String) :
    Outcome :=
  run config files { arguments with inputPath := none, expressions := expressions }

/-- The run with a file of expressions. -/
def runOn (config : Config) (files : Files) (arguments : Arguments) (path : String) : Outcome :=
  run config files { arguments with inputPath := some path }

section Runs

variable {config : Config} {files : Files} {arguments : Arguments} {least : Nat}

theorem runWith_eq (hlevel : threshold config arguments.logLevel = .ok least)
    (hcheck : config.check = .ok ()) (expressions : List String) :
    (runWith config files arguments expressions).ending =
        statusOf (anyFails arguments.reading expressions) ∧
      (runWith config files arguments expressions).output =
        String.join (expressions.map (printed arguments.rpn arguments.reading)) ∧
      (runWith config files arguments expressions).log.filter (·.level = .error) =
        (expressions.flatMap (complaints arguments.reading)).filter
          (least ≤ ·.level.severity) := by
  have hfaithful : (solverFor config arguments).Faithful := Solver.faithful_new _ _
  obtain ⟨houtputs, hrecords, hany⟩ := showAll_eq hfaithful arguments.rpn expressions
  have hrun : runWith config files arguments expressions =
      { direct arguments.rpn (solverFor config arguments) expressions with
        log := (direct arguments.rpn (solverFor config arguments) expressions).log.filter
          (least ≤ ·.level.severity) } := by
    simp only [runWith, run, hlevel, hcheck, Arguments.path?, Option.filter_none]
    rfl
  rw [hrun]
  refine ⟨congrArg statusOf hany, congrArg String.join houtputs, ?_⟩
  -- The threshold is applied last, to complaints only, so it may be of any severity.
  rw [List.filter_comm]
  exact congrArg (List.filter _) hrecords

/-- The rows are shown as a table, or saved where the arguments ask for it. -/
def Outcome.Tells (outcome : Outcome) (config : Config) (files : Files) (arguments : Arguments)
    (rows : List Row) : Prop :=
  match Arguments.path? arguments.outputPath with
  | none => outcome.output = Batch.table config rows ∧ outcome.saved = none
  | some target => outcome.output = "" ∧
      outcome.saved = some (target, String.ofList (Batch.csv config files.quotesReturn rows))

/-- A run on a file that can be loaded. -/
theorem runOn_of_load {path : String} {expressions : List String}
    (hlevel : threshold config arguments.logLevel = .ok least) (hcheck : config.check = .ok ())
    (hpath : path ≠ "")
    (hload : ExpressionFile.load config none path (files.read path) = .ok expressions)
    (hsaved : ∀ target ∈ Arguments.path? arguments.outputPath, saveFailure? files target = none) :
    (runOn config files arguments path).ending =
        statusOf (anyFails arguments.reading expressions) ∧
      (runOn config files arguments path).Tells config files arguments
        (expressions.map (Row.alone arguments.reading)) := by
  have hrows : ((solverFor config arguments).rows expressions).1 =
      expressions.map (Row.alone arguments.reading) :=
    Solver.Faithful.rows_alone (Solver.faithful_new _ _) expressions
  have hinput : Arguments.path? (some path) = some path := by
    simp [Arguments.path?, hpath]
  have hsolver : solverFor config { arguments with inputPath := some path } =
      solverFor config arguments := rfl
  simp only [Outcome.Tells, runOn, run, hlevel, hcheck, hinput, hsolver, batch, hload, hrows,
    any_failed_alone]
  cases houtput : Arguments.path? arguments.outputPath with
  | none => exact ⟨rfl, rfl, rfl⟩
  | some target => simp [hsaved target houtput]

theorem runOn_eq {path text : String} {expressions : List String}
    (hlevel : threshold config arguments.logLevel = .ok least) (hcheck : config.check = .ok ())
    (hlines : ∀ expression ∈ expressions, ExpressionFile.FillsLine expression)
    (hwritten : ExpressionFile.Written expressions text)
    (hpath : path ≠ "" ∧ ExpressionFile.isSheet path = false)
    (hread : files.read path = .ok text.toUTF8)
    (hsaved : ∀ target ∈ Arguments.path? arguments.outputPath, saveFailure? files target = none) :
    (runOn config files arguments path).ending =
        statusOf (anyFails arguments.reading expressions) ∧
      (runOn config files arguments path).Tells config files arguments
        (expressions.map (Row.alone arguments.reading)) := by
  have hload : ExpressionFile.load config none path (files.read path) = .ok expressions := by
    rw [hread]
    exact ExpressionFile.load_of_written config none hpath.2 hlines hwritten
  exact runOn_of_load hlevel hcheck hpath.1 hload hsaved

end Runs

/-- A run with expressions and a run on a file that holds them come to the same. -/
structure Agree (config : Config) (files : Files) (arguments : Arguments) (least : Nat)
    (expressions : List String) (path : String) : Prop where
  status : ∃ code, (runWith config files arguments expressions).ending = .status code ∧
    (runOn config files arguments path).ending = .status code ∧
    (code = 1 ↔ ∃ expression ∈ expressions, ∃ fault,
      solve arguments.reading expression = .error fault) ∧
    (code = 0 ↔ ∀ expression ∈ expressions, ∃ x, solve arguments.reading expression = .ok x)
  rows : (runOn config files arguments path).Tells config files arguments
    (expressions.map (Row.alone arguments.reading))
  output : (runWith config files arguments expressions).output =
    String.join (expressions.map (printed arguments.rpn arguments.reading))
  log : (runWith config files arguments expressions).log.filter (·.level = .error) =
    (expressions.flatMap (complaints arguments.reading)).filter (least ≤ ·.level.severity)
  each : ∀ expression ∈ expressions, Told arguments.rpn arguments.reading expression
    (Row.alone arguments.reading expression).cells
    (printed arguments.rpn arguments.reading expression) (complaints arguments.reading expression)
  append : ∀ front back, (runWith config files arguments (front ++ back)).output =
    (runWith config files arguments front).output ++ (runWith config files arguments back).output

theorem exists_status (reading : Reading) (expressions : List String) :
    ∃ code, statusOf (anyFails reading expressions) = .status code ∧
      (code = 1 ↔ ∃ expression ∈ expressions, ∃ fault, solve reading expression = .error fault) ∧
      (code = 0 ↔ ∀ expression ∈ expressions, ∃ x, solve reading expression = .ok x) := by
  have hvalues : (∀ expression ∈ expressions, ∃ x, solve reading expression = .ok x) ↔
      ¬ ∃ expression ∈ expressions, ∃ fault, solve reading expression = .error fault := by
    push Not
    refine forall₂_congr fun expression _ ↦ ?_
    cases solve reading expression <;> simp
  refine ⟨_, rfl, ?_⟩
  rw [hvalues, ← anyFails_iff]
  cases anyFails reading expressions <;> simp

/-- A table tells of each expression in the lines of a file what a run with the expressions prints
for it or complains of, and both runs have the same exit status. -/
theorem agree_of_written {config : Config} {files : Files} {arguments : Arguments} {least : Nat}
    {path text : String} {expressions : List String}
    (hlevel : threshold config arguments.logLevel = .ok least) (hcheck : config.check = .ok ())
    (hlines : ∀ expression ∈ expressions, ExpressionFile.FillsLine expression)
    (hwritten : ExpressionFile.Written expressions text)
    (hpath : path ≠ "" ∧ ExpressionFile.isSheet path = false)
    (hread : files.read path = .ok text.toUTF8)
    (hsaved : ∀ target ∈ Arguments.path? arguments.outputPath, saveFailure? files target = none) :
    Agree config files arguments least expressions path := by
  have hdirect := @runWith_eq config files arguments least hlevel hcheck
  obtain ⟨hending, hrows⟩ := runOn_eq hlevel hcheck hlines hwritten hpath hread hsaved
  obtain ⟨code, hcode, hone, hzero⟩ := exists_status arguments.reading expressions
  refine ⟨⟨code, (hdirect expressions).1.trans hcode, hending.trans hcode, hone, hzero⟩, hrows,
    (hdirect expressions).2.1, (hdirect expressions).2.2, fun expression _ ↦ told _ _ _, ?_⟩
  intro front back
  rw [(hdirect _).2.1, (hdirect _).2.1, (hdirect _).2.1, List.map_append, String.join_append]

/-- The arguments that ask for postfix lines. -/
def withOrder : Arguments :=
  ⟨[], none, none, .configured, true, false, false⟩

/-- Files that all hold a sum, a text that cannot be read, and a sum that lacks an operand. -/
def sumFiles : Files where
  read := fun _ ↦ .ok "1+1\n2#3\n1+\n".toUTF8
  enter := fun _ ↦ .ok ()
  save := fun _ ↦ .ok ()
  quotesReturn := true

theorem agree_of_written_sum :
    (threshold .default withOrder.logLevel = .ok 20 ∧ Config.default.check = .ok () ∧
      (∀ expression ∈ ["1+1", "2#3", "1+"], ExpressionFile.FillsLine expression) ∧
      ExpressionFile.Written ["1+1", "2#3", "1+"] "1+1\n2#3\n1+\n" ∧
      ("in.txt" ≠ "" ∧ ExpressionFile.isSheet "in.txt" = false) ∧
      sumFiles.read "in.txt" = .ok "1+1\n2#3\n1+\n".toUTF8 ∧
      ∀ target ∈ Arguments.path? withOrder.outputPath, saveFailure? sumFiles target = none) ∧
    Agree .default sumFiles withOrder 20 ["1+1", "2#3", "1+"] "in.txt" ∧
    (runWith .default sumFiles withOrder ["1+1", "2#3", "1+"]).output =
      "1+1 -> 1 1 +\n2.0\n1+ -> 1 +\n" := by
  have hlevel : threshold .default withOrder.logLevel = .ok 20 := by decide +kernel
  have hcheck : Config.default.check = .ok () := by decide +kernel
  have hlines : ∀ expression ∈ ["1+1", "2#3", "1+"], ExpressionFile.FillsLine expression := by
    simp only [ExpressionFile.FillsLine, Text.Unbroken]
    decide +kernel
  have hwritten : ExpressionFile.Written ["1+1", "2#3", "1+"] "1+1\n2#3\n1+\n" :=
    .inr (by decide +kernel)
  have hpath : "in.txt" ≠ "" ∧ ExpressionFile.isSheet "in.txt" = false :=
    ⟨by decide, by decide +kernel⟩
  have hsaved : ∀ target ∈ Arguments.path? withOrder.outputPath,
      saveFailure? sumFiles target = none := by
    intro target htarget
    cases htarget
  exact ⟨⟨hlevel, hcheck, hlines, hwritten, hpath, rfl, hsaved⟩,
    agree_of_written hlevel hcheck hlines hwritten hpath rfl hsaved, by decide +kernel⟩

end Reckon.CommandLine
