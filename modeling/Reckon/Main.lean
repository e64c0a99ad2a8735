import Reckon.CommandLine.Run

/-!
# The program

Reads the arguments and the file that they name, and leaves the output on the standard streams
and the table in its file.
-/

namespace Reckon

/-- Whether a path can be opened as a folder. -/
def isFolder (path : String) : IO Bool := do
  try
    let _ ← IO.FS.Handle.mk (path ++ "/.") .read
    return true
  catch _ =>
    return false

/-- Why the system does not open a path. -/
def pathFault (path : String) : IO.Error → IO PathFault
  | .noFileOrDirectory .. => return .missing
  | .inappropriateType .. =>
    return if ← isFolder path then .isFolder else .notFolder
  | _ => return if ← isFolder path then .isFolder else .missing

def fileContent (path : String) : IO (Except PathFault ByteArray) := do
  try
    return .ok (← IO.FS.readBinFile path)
  catch error =>
    return .error (← pathFault path error)

open CommandLine

/-- The files that a run may ask for: the one it reads, and the one it saves, in which a carriage
return stands bare. -/
def filesFor (arguments : Arguments) : IO Files := do
  let content ← match arguments.inputPath with
    | some path => fileContent path
    | none => pure (.error .missing)
  let output := arguments.outputPath.getD ""
  let folderThere ← isFolder (Path.folder output)
  let outputIsFolder ← isFolder output
  return {
    read := fun _ ↦ content
    enter := fun _ ↦ if folderThere then .ok () else .error .missing
    save := fun _ ↦ if outputIsFolder then .error .isFolder else .ok ()
    quotesReturn := false }

/-- Saves the table; the exit status is one if that fails. -/
def save (path content : String) : IO UInt32 := do
  try
    IO.FS.writeFile path content
    return 0
  catch error =>
    IO.eprintln ((← pathFault path error).message path)
    return 1

def leave (outcome : Outcome) : IO UInt32 := do
  IO.print outcome.output
  IO.eprint (Log.text outcome.log)
  let saved ← match outcome.saved with
    | some (path, content) => save path content
    | none => pure 0
  match outcome.ending with
  | .status code => return max saved code.toUInt32
  | .failed failure =>
    IO.eprintln (failure.message?.getD "")
    return 1

end Reckon

open Reckon CommandLine in
def main (texts : List String) : IO UInt32 := do
  match Arguments.ofTexts texts with
  | .error .help => return 0
  | .error (.usage fault) =>
    IO.eprintln (usageLine fault)
    return 2
  | .ok arguments => leave (run .default (← filesFor arguments) arguments)
