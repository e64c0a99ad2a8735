/-!
# Log records

A record names the part that wrote it, its level and a message. The records that are shown are
those of at least a chosen severity.
-/

namespace Reckon.Log

inductive Level where
  | debug
  | info
  | warning
  | error
  | critical
deriving DecidableEq

namespace Level

def all : List Level := [debug, info, warning, error, critical]

def name : Level → String
  | debug => "DEBUG"
  | info => "INFO"
  | warning => "WARNING"
  | error => "ERROR"
  | critical => "CRITICAL"

def severity : Level → Nat
  | debug => 10
  | info => 20
  | warning => 30
  | error => 40
  | critical => 50

end Level

/-- The part of the program that writes a record. -/
inductive Source where
  | program
  | lexer
  | classifier
  | converter
  | evaluator
  | solver
  | batch
deriving DecidableEq

def Source.name : Source → String
  | program => "__main__"
  | lexer => "core.lexer"
  | classifier => "core.classifier"
  | converter => "core.converter"
  | evaluator => "core.rpn_evaluator"
  | solver => "solver.solver"
  | batch => "utils.batch"

structure Record where
  source : Source
  level : Level
  message : String

def Record.line (r : Record) : String :=
  s!"{r.source.name} - {r.level.name} - {r.message}\n"

/-- The lines of records. -/
def text (records : List Record) : String :=
  String.join (records.map Record.line)

end Reckon.Log
