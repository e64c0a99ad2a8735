import Reckon.Batch.Table
import Reckon.CommandLine.Arguments
import Reckon.ExpressionFile
import Reckon.FileTree
import Reckon.Log.Vocabulary
import Reckon.Working

/-!
# Runs of the program

A run is a function of the command line and of the files that it may read. Expressions given
directly are valued one after the other, each with its output or a record of its fault. A file
of expressions gives a table of results, printed or saved. The exit status tells whether any
expression has no value.
-/

namespace Reckon.CommandLine

/-- What a run can see of the file system, and how a table is written to a file. -/
structure Files where
  read : String → Except PathFault ByteArray
  /-- That a path leads to a folder. -/
  enter : String → Except PathFault Unit
  /-- That a file can be saved. -/
  save : String → Except PathFault Unit
  /-- That the writer of tables puts a field in quotes for a carriage return. -/
  quotesReturn : Bool

/-- The files of a tree. -/
def Files.ofTree (quotesReturn : Bool) (tree : FileTree) : Files where
  read := tree.read
  enter := tree.enter
  save path := discard (tree.placeOf path)
  quotesReturn := quotesReturn

/-- What ends a run before its exit status is known. -/
inductive Failure where
  | threshold (fault : Log.ThresholdFault)
  | config (fault : ConfigFault)
  | load (fault : LoadFault)
  | missingFolder (folder : String)
  | unsaved (path : String) (fault : PathFault)
deriving DecidableEq

def Failure.message? : Failure → Option String
  | threshold fault => some fault.message
  | config fault => some fault.message
  | load fault => fault.message?
  | missingFolder folder => some s!"Cannot save file into a non-existent directory: '{folder}'"
  | unsaved path fault => some (fault.message path)

inductive Ending where
  | status (code : Nat)
  | failed (failure : Failure)

/-- All that a run leaves behind. -/
structure Outcome where
  ending : Ending
  output : String
  saved : Option (String × String)
  log : List Log.Record

/-! ## Expressions given directly -/

open Log

/-- The start of an expression, as far as records show it. -/
def excerpt (expression : String) : String :=
  String.ofList (expression.toList.take 50)

/-- The records of reading an expression. -/
def parseRecords (solver : Solver) (expression : String) : List Record :=
  match solver.remembered? expression with
  | some _ => [⟨.solver, .debug, s!"Cache hit for expression: {excerpt expression}"⟩]
  | none => (Working.ofText solver.reading expression).records expression

/-- The records of valuing an expression that was read. -/
def valueRecords : Except Fault Built → List Record
  | .ok built => built.equation.valueRecords
  | .error _ => []

/-- The output and the records of one expression, and whether it has no value. -/
structure Shown where
  output : String
  records : List Record
  failed : Bool

def invalidRecord (expression : String) (fault : Fault) : Record :=
  ⟨.program, .error, s!"Invalid expression {Fault.shown expression.toList}: {fault.report}"⟩

/-- The line with the postfix notation, if it is asked for. -/
def postfixLine (rpn : Bool) (expression : String) (equation : Equation) : String :=
  if rpn then s!"{expression} -> {equation.postfixText}\n" else ""

/-- The text of a value, without the line feed behind it. -/
def valueText (x : Binary64) : String :=
  String.ofList x.shortestText

def valueLine (x : Binary64) : String :=
  valueText x ++ "\n"

def showOne (rpn : Bool) (solver : Solver) (expression : String) : Shown × Solver :=
  let (parsed, after) := solver.parse expression
  let reading := parseRecords solver expression
  match parsed with
  | .error fault => (⟨"", reading ++ [invalidRecord expression fault], true⟩, after)
  | .ok built =>
    let first := postfixLine rpn expression built.equation
    match built.equation.value with
    | .ok x => (⟨first ++ valueLine x, reading, false⟩, after)
    | .error fault =>
      (⟨first, reading ++ valueRecords parsed ++ [invalidRecord expression fault], true⟩, after)

def showAll (rpn : Bool) (solver : Solver) : List String → List Shown
  | [] => []
  | expression :: rest =>
    let (shown, after) := showOne rpn solver expression
    shown :: showAll rpn after rest

def statusOf (anyFailed : Bool) : Ending :=
  .status (if anyFailed then 1 else 0)

def direct (rpn : Bool) (solver : Solver) (expressions : List String) : Outcome :=
  let shown := showAll rpn solver expressions
  { ending := statusOf (shown.any (·.failed))
    output := String.join (shown.map (·.output))
    saved := none
    log := shown.flatMap (·.records) }

/-! ## Files of expressions -/

/-- The records of a row that is valued. -/
def rowRecords (solver : Solver) (expression : String) : List Record :=
  let failure := match (solver.evaluate expression).1 with
    | .ok _ => []
    | .error fault =>
      [⟨.batch, .debug,
        s!"Error evaluating expression '{excerpt expression}': {fault.report}"⟩]
  parseRecords solver expression ++ valueRecords (solver.parse expression).1 ++ failure

def rowsRecords (solver : Solver) : List String → List Record
  | [] => []
  | expression :: rest =>
    rowRecords solver expression ++ rowsRecords (solver.evaluate expression).2 rest

/-- Why a file cannot be saved: its folder is looked for first. -/
def saveFailure? (files : Files) (path : String) : Option Failure :=
  match files.enter (Path.folder path) with
  | .error .nameTooLong => some (.unsaved (Path.folder path) .nameTooLong)
  | .error _ => some (.missingFolder (Path.folder path))
  | .ok () =>
    match files.save path with
    | .error fault => some (.unsaved path fault)
    | .ok () => none

def batch (config : Config) (files : Files) (solver : Solver) (path : String) (output : Option String) :
    Outcome :=
  let loading : Record := ⟨.batch, .info, s!"Loading expressions from {path}"⟩
  match ExpressionFile.load config none path (files.read path) with
  | .error fault => ⟨.failed (.load fault), "", none, [loading]⟩
  | .ok expressions =>
    let rows := (solver.rows expressions).1
    let failures := (rows.filter (·.failed)).length
    let records :=
      loading :: ⟨.batch, .info, s!"Loaded {expressions.length} expressions"⟩ ::
        rowsRecords solver expressions ++
          [⟨.batch, .info, s!"Evaluated {rows.length} expressions, {failures} failed"⟩]
    let ending := statusOf (rows.any (·.failed))
    match output with
    | none => ⟨ending, Batch.table config rows, none, records⟩
    | some target =>
      let records := records ++ [⟨.program, .info, s!"Saving results to {target}"⟩]
      match saveFailure? files target with
      | none =>
        let text := String.ofList (Batch.csv config files.quotesReturn rows)
        ⟨ending, "", some (target, text), records⟩
      | some failure => ⟨.failed failure, "", none, records⟩

/-! ## The program -/

/-- The solver that the arguments ask for; its options do not come from the configuration. -/
def solverFor (config : Config) (arguments : Arguments) : Solver :=
  .new config.cacheSize ⟨!arguments.keepWhitespace, arguments.leftAssociative⟩

/-- The least severity of the records that a run shows. -/
def threshold (config : Config) : LevelWord → Except Log.ThresholdFault Nat
  | .configured => Log.threshold config.logLevel
  | .given word => Log.threshold word
  | .none => .error .noWord

/-- A run with its arguments. -/
def run (config : Config) (files : Files) (arguments : Arguments) : Outcome :=
  match threshold config arguments.logLevel with
  | .error fault => ⟨.failed (.threshold fault), "", none, []⟩
  | .ok least =>
    match config.check with
    | .error fault => ⟨.failed (.config fault), "", none, []⟩
    | .ok () =>
      let solver := solverFor config arguments
      let outcome :=
        match Arguments.path? arguments.inputPath with
        | some path => batch config files solver path (Arguments.path? arguments.outputPath)
        | none => direct arguments.rpn solver arguments.expressions
      { outcome with log := outcome.log.filter (least ≤ ·.level.severity) }

/-- The line that reports a command line that cannot be understood. -/
def usageLine (fault : UsageFault) : String :=
  s!"main.py: error: {fault.message}"

end Reckon.CommandLine
