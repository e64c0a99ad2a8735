import Reckon.Fault
import Reckon.Log

/-!
# The vocabulary of the log

The least severity of the records that are shown is asked for by a word of the vocabulary. Some
words stand for a severity; one that stands for a text asks for the severity of that name; all
others stand for something that is no severity.
-/

namespace Reckon.Log

/-- What a word of the vocabulary stands for. -/
inductive Meaning where
  | severity (least : Nat)
  | text (content : String)
  /-- Something else, by the way it is shown. -/
  | thing (shown : String)
deriving DecidableEq

namespace Vocabulary

/-- The names of severities, the highest first. -/
def severities : List (String × Nat) :=
  [("CRITICAL", 50), ("FATAL", 50), ("ERROR", 40), ("WARN", 30), ("WARNING", 30), ("INFO", 20),
    ("DEBUG", 10), ("NOTSET", 0)]

/-- Settings that are on, which count as a severity of one, and one that leaves the severity of
warnings. -/
def settings : List (String × Nat) :=
  [("raiseExceptions", 1), ("logThreads", 1), ("logMultiprocessing", 1), ("logProcesses", 1),
    ("_warnings_showwarning", 30)]

def texts : List (String × String) :=
  [("BASIC_FORMAT", "%(levelname)s:%(name)s:%(message)s"), ("__name__", "logging"),
    ("__package__", "logging"), ("__status__", "production"), ("__version__", "0.5.1.2"),
    ("__date__", "07 February 2010")]

/-- The kinds of parts that a log is made of, by their names. -/
def parts : List String :=
  ["BufferingFormatter", "FileHandler", "Filter", "Filterer", "Formatter", "Handler", "LogRecord",
    "Logger", "LoggerAdapter", "Manager", "NullHandler", "PercentStyle", "PlaceHolder",
    "RootLogger", "StrFormatStyle", "StreamHandler", "StringTemplateStyle", "_StderrHandler"]

def shownPart (part : String) : String :=
  s!"<class 'logging.{part}'>"

/-- The words that stand in the list of all words; the list is itself in the vocabulary. -/
def listed : List String :=
  ["BASIC_FORMAT", "BufferingFormatter", "CRITICAL", "DEBUG", "ERROR", "FATAL", "FileHandler",
    "Filter", "Formatter", "Handler", "INFO", "LogRecord", "Logger", "LoggerAdapter", "NOTSET",
    "NullHandler", "StreamHandler", "WARN", "WARNING", "addLevelName", "basicConfig",
    "captureWarnings", "critical", "debug", "disable", "error", "exception", "fatal",
    "getLevelName", "getLogger", "getLoggerClass", "info", "log", "makeLogRecord",
    "setLoggerClass", "shutdown", "warn", "warning", "getLogRecordFactory", "setLogRecordFactory",
    "lastResort", "raiseExceptions", "getLevelNamesMapping"]

def shownText (text : String) : String :=
  Fault.shown text.toList

def shownSeverities : String :=
  ", ".intercalate (severities.map fun (name, least) ↦ s!"{shownText name}: {least}")

/-- Each severity with one name, the highest first. -/
def shownNames : String :=
  let named := severities.filter fun (name, _) ↦ name ≠ "FATAL" ∧ name ≠ "WARN"
  ", ".intercalate (named.map fun (name, least) ↦ s!"{least}: {shownText name}")

/-- The kinds of styles, each with its sign and the shape of a line. -/
def shownStyles : String :=
  let styles :=
    [("%", "PercentStyle", "%(levelname)s:%(name)s:%(message)s"),
      ("\x7b", "StrFormatStyle", "\x7blevelname\x7d:\x7bname\x7d:\x7bmessage\x7d"),
      ("$", "StringTemplateStyle", "$\x7blevelname\x7d:$\x7bname\x7d:$\x7bmessage\x7d")]
  ", ".intercalate (styles.map fun (sign, part, shape) ↦
    s!"{shownText sign}: ({shownPart part}, {shownText shape})")

def braced (text : String) : String :=
  "\x7b" ++ text ++ "\x7d"

def shownListed : String :=
  "[" ++ ", ".intercalate (listed.map shownText) ++ "]"

def things : List (String × String) :=
  parts.map (fun part ↦ (part, shownPart part)) ++
    [("_loggerClass", shownPart "Logger"), ("_logRecordFactory", shownPart "LogRecord"),
      ("Template", "<class 'string.Template'>"), ("GenericAlias", "<class 'types.GenericAlias'>"),
      ("_nameToLevel", braced shownSeverities), ("_levelToName", braced shownNames),
      ("_STYLES", braced shownStyles), ("__all__", shownListed), ("__annotations__", braced ""),
      ("__class__", "<class 'module'>"), ("root", "<RootLogger root (WARNING)>"),
      ("lastResort", "<_StderrHandler (WARNING)>"),
      ("_defaultLastResort", "<_StderrHandler (WARNING)>"), ("atexit", "<module 'atexit' (built-in)>"),
      ("io", "<module 'io' (frozen)>"), ("os", "<module 'os' (frozen)>"),
      ("sys", "<module 'sys' (built-in)>"), ("time", "<module 'time' (built-in)>")]

def all : List (String × Meaning) :=
  (severities ++ settings).map (fun (word, least) ↦ (word, .severity least)) ++
    texts.map (fun (word, content) ↦ (word, .text content)) ++
    things.map (fun (word, shown) ↦ (word, .thing shown))

end Vocabulary

/-- Why no severity can be told. -/
inductive ThresholdFault where
  | noWord
  | unknownWord (word : String)
  | unknownName (name : String)
  | noSeverity (shown : String)
deriving DecidableEq

def ThresholdFault.message : ThresholdFault → String
  | noWord => "attribute name must be string, not 'list'"
  | unknownWord word => s!"module 'logging' has no attribute '{word}'"
  | unknownName name => s!"Unknown level: {Fault.shown name.toList}"
  | noSeverity shown => s!"Level not an integer or a valid string: {shown}"

/-- The least severity that a word asks for. -/
def threshold (word : String) : Except ThresholdFault Nat :=
  match Vocabulary.all.lookup word with
  | none => .error (.unknownWord word)
  | some (.severity least) => .ok least
  | some (.text name) =>
    match Vocabulary.severities.lookup name with
    | some least => .ok least
    | none => .error (.unknownName name)
  | some (.thing shown) => .error (.noSeverity shown)

end Reckon.Log
