import Reckon.Fault
import Reckon.Log
import Reckon.Text.Digit

/-!
# Arguments

The words of a command line are options and operands. An option may be shortened as long as
only one option begins like it, and its value follows it, or an equals sign. A double hyphen
behind the equals sign stands for no value. A word that begins with a hyphen is an option unless
it is a negative number or holds a space, and behind a double hyphen no word is one. The operands
are the expressions; they have to stand together.

All words are recognised before any is taken, so a word that could be several options is
reported first. Words that nothing takes are reported last, all at once.
-/

namespace Reckon.CommandLine

inductive Switch where
  | help
  | inputPath
  | outputPath
  | rpn
  | leftAssociative
  | keepWhitespace
  | logLevel
deriving DecidableEq

namespace Switch

/-- All spellings, in the order in which they are listed. -/
def spellings : List (String × Switch) :=
  [("-h", help), ("--help", help), ("--input_path", inputPath), ("--output_path", outputPath),
    ("--rpn", rpn), ("--left_associative", leftAssociative), ("--keep_whitespace", keepWhitespace),
    ("--log_level", logLevel)]

/-- The spellings of an option as messages name it. -/
def label (switch : Switch) : String :=
  "/".intercalate ((spellings.filter (·.2 = switch)).map (·.1))

def takesValue : Switch → Bool
  | inputPath | outputPath | logLevel => true
  | _ => false

end Switch

inductive UsageFault where
  | ambiguous (word : String) (candidates : List String)
  | ignoredValue (switch : Switch) (value : String)
  | missingValue (switch : Switch)
  | invalidLevel (value : String)
  | unrecognized (words : List String)
  | nothingToDo
deriving DecidableEq

def UsageFault.message : UsageFault → String
  | ambiguous word candidates =>
    let list := ", ".intercalate candidates
    s!"ambiguous option: {word} could match {list}"
  | ignoredValue switch value =>
    s!"argument {switch.label}: ignored explicit argument {Fault.shown value.toList}"
  | missingValue switch => s!"argument {switch.label}: expected one argument"
  | invalidLevel value =>
    let list := ", ".intercalate (Log.Level.all.map fun level ↦ Fault.shown level.name.toList)
    s!"argument {Switch.logLevel.label}: invalid choice: {Fault.shown value.toList} (choose from {list})"
  | unrecognized words =>
    let list := " ".intercalate words
    s!"unrecognized arguments: {list}"
  | nothingToDo => "give at least one expression or --input_path"

/-- A word by its form. -/
inductive Word where
  | operand (text : String)
  | separator
  | option (switch : Switch) (value : Option String)
  | unknown (text : String)
deriving DecidableEq

namespace Word

/-- A hyphen before decimal digits, or before a point with digits behind it; a line may end there. -/
def isNegativeNumber (text : List Char) : Bool :=
  match text with
  | '-' :: rest =>
    let number := if rest.getLast? = some '\n' then rest.dropLast else rest
    let behind := number.dropWhile Text.isDecimalDigit
    match behind with
    | [] => !number.isEmpty
    | c :: fraction => c = '.' && !fraction.isEmpty && fraction.all Text.isDecimalDigit
  | _ => false

/-- The part of a word before its first equals sign, and the value behind it if there is one. -/
def splitValue (text : List Char) : List Char × Option (List Char) :=
  match text.dropWhile (· ≠ '=') with
  | [] => (text, none)
  | _ :: value => (text.takeWhile (· ≠ '='), some value)

/-- An option with a value; a run of letters behind a single hyphen are options themselves. -/
def given (spelling : String) (switch : Switch) (value : List Char) : Word :=
  let rest := if spelling = "-h" then value.dropWhile (· = 'h') else value
  if rest.isEmpty && !value.isEmpty then .option switch none
  else .option switch (some (String.ofList rest))

/-- The options that a word may stand for, with the value in it. -/
def candidates (text : List Char) : List (String × Word) :=
  let (start, value) := splitValue text
  match text with
  | '-' :: '-' :: _ =>
    (Switch.spellings.filter fun (spelling, _) ↦ start.isPrefixOf spelling.toList).map
      fun (spelling, switch) ↦ (spelling, match value with
        | some value => given spelling switch value
        | none => .option switch none)
  | '-' :: letter :: value =>
    (Switch.spellings.filter fun (spelling, _) ↦ spelling.toList = ['-', letter]).map
      fun (spelling, switch) ↦ (spelling, given spelling switch value)
  | _ => []

def spelled? (text : List Char) : Option Word :=
  let (start, value) := splitValue text
  match Switch.spellings.lookup (String.ofList text) with
  | some switch => some (.option switch none)
  | none =>
    match value, Switch.spellings.lookup (String.ofList start) with
    | some value, some switch => some (given (String.ofList start) switch value)
    | _, _ => none

/-- What a word before the separator is. -/
def ofText (word : String) : Except UsageFault Word :=
  match word.toList with
  | '-' :: rest =>
    let text := '-' :: rest
    if rest.isEmpty then .ok (.operand word)
    else match spelled? text, candidates text with
      | some known, _ => .ok known
      | none, [(_, known)] => .ok known
      | none, [] =>
        if isNegativeNumber text || text.contains ' ' then .ok (.operand word) else .ok (.unknown word)
      | none, several => .error (.ambiguous word (several.map (·.1)))
  | _ => .ok (.operand word)

/-- The words of a command line. -/
def ofTexts : List String → Except UsageFault (List Word)
  | [] => .ok []
  | text :: rest =>
    if text = "--" then .ok (.separator :: rest.map .operand)
    else do
      let word ← ofText text
      return word :: (← ofTexts rest)

/-- Whether a word belongs to a run of operands. -/
def isPlain : Word → Bool
  | .operand _ | .separator => true
  | _ => false

def text : Word → String
  | .operand text | .unknown text => text
  | .separator => "--"
  | .option switch _ => switch.label

end Word

/-- The word that asks for a level: the configured one, another, or none at all. -/
inductive LevelWord where
  | configured
  | given (word : String)
  | none
deriving DecidableEq

structure Arguments where
  expressions : List String
  inputPath : Option String
  outputPath : Option String
  logLevel : LevelWord
  rpn : Bool
  leftAssociative : Bool
  keepWhitespace : Bool

/-- How the reading of a command line may end early. -/
inductive Stop where
  | help
  | usage (fault : UsageFault)
deriving DecidableEq

/-- The arguments so far, whether the operands were taken, and the words that nothing takes. -/
structure Taking where
  arguments : Arguments
  operandsTaken : Bool
  surplus : List String

namespace Taking

def start : Taking :=
  ⟨⟨[], none, none, .configured, false, false, false⟩, false, []⟩

def set (taking : Taking) (arguments : Arguments) : Taking :=
  { taking with arguments := arguments }

/-- Takes a run of operands; the first separator among them is dropped. -/
def operands (taking : Taking) (run : List Word) : Taking :=
  if taking.operandsTaken then { taking with surplus := taking.surplus ++ run.map Word.text }
  else
    { taking with
      arguments := { taking.arguments with expressions := (run.erase .separator).map Word.text }
      operandsTaken := true }

def flag (taking : Taking) : Switch → Except Stop Taking
  | .help => .error .help
  | .rpn => .ok (taking.set { taking.arguments with rpn := true })
  | .leftAssociative => .ok (taking.set { taking.arguments with leftAssociative := true })
  | .keepWhitespace => .ok (taking.set { taking.arguments with keepWhitespace := true })
  | switch => .error (.usage (.missingValue switch))

def value (taking : Taking) (switch : Switch) (value : String) : Except Stop Taking :=
  let path := if value = "--" then none else some value
  match switch with
  | .inputPath => .ok (taking.set { taking.arguments with inputPath := path })
  | .outputPath => .ok (taking.set { taking.arguments with outputPath := path })
  | .logLevel =>
    if value = "--" then .ok (taking.set { taking.arguments with logLevel := .none })
    else if Log.Level.all.any (·.name = value) then
      .ok (taking.set { taking.arguments with logLevel := .given value })
    else .error (.usage (.invalidLevel value))
  | switch => .error (.usage (.ignoredValue switch value))

/-- Takes the words from left to right. -/
def words (taking : Taking) : List Word → Except Stop Taking
  | [] => .ok taking
  | .unknown text :: rest => { taking with surplus := taking.surplus ++ [text] }.words rest
  | .option switch (some value) :: rest => do (← taking.value switch value).words rest
  | .option switch none :: .operand value :: rest => do
    if switch.takesValue then (← taking.value switch value).words rest
    else (← taking.flag switch).words (.operand value :: rest)
  | .option switch none :: rest => do (← taking.flag switch).words rest
  | word :: rest =>
    (taking.operands (word :: rest.takeWhile Word.isPlain)).words (rest.dropWhile Word.isPlain)
termination_by words => words.length
decreasing_by
  all_goals simp only [List.length_cons]
  all_goals first
    | omega
    | exact Nat.lt_succ_of_le (List.dropWhile_sublist _).length_le

end Taking

namespace Arguments

/-- A path that is not empty. -/
def path? (path : Option String) : Option String :=
  path.filter (· ≠ "")

/-- The arguments of a command line. -/
def ofTexts (texts : List String) : Except Stop Arguments := do
  let words ← (Word.ofTexts texts).mapError Stop.usage
  let taking ← Taking.start.words words
  if !taking.surplus.isEmpty then throw (.usage (.unrecognized taking.surplus))
  if taking.arguments.expressions.isEmpty && (path? taking.arguments.inputPath).isNone then
    throw (.usage .nothingToDo)
  return taking.arguments

end Arguments

end Reckon.CommandLine
