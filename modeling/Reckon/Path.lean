import Reckon.Fault

/-!
# Paths

A path is a text of names with slashes between them. An empty name and a single point stay where
they are, two points lead to the folder above. A path that starts with a slash starts at the root
of the file system.
-/

namespace Reckon

/-- Why a path cannot be opened. -/
inductive PathFault where
  | missing
  | isFolder
  | notFolder
  | nameTooLong
  | nullCharacter
deriving DecidableEq

def PathFault.message (path : String) : PathFault → String
  | missing => s!"[Errno 2] No such file or directory: {Fault.shown path.toList}"
  | isFolder => s!"[Errno 21] Is a directory: {Fault.shown path.toList}"
  | notFolder => s!"[Errno 20] Not a directory: {Fault.shown path.toList}"
  | nameTooLong => s!"[Errno 36] File name too long: {Fault.shown path.toList}"
  | nullCharacter => "embedded null byte"

namespace Path

/-- All names in order, empty ones among them. -/
def segments (path : String) : List String :=
  path.splitOn "/"

def isAbsolute (path : String) : Bool :=
  path.startsWith "/"

/-- The names that lead on. -/
def names (path : String) : List String :=
  (segments path).filter fun name ↦ name ≠ "" ∧ name ≠ "."

/-- What a path starts with: just two slashes are kept, more count as one. -/
def root (path : String) : String :=
  if !isAbsolute path then ""
  else if path.startsWith "//" && !path.startsWith "///" then "//"
  else "/"

/-- The folder of a path, in its shortest form. -/
def folder (path : String) : String :=
  let text := root path ++ "/".intercalate (names path).dropLast
  if text = "" then "." else text

/-- What can be told from the text alone: the names of a path are at most 4095 bytes together. -/
def check (path : String) : Except PathFault Unit :=
  if path.toList.contains '\x00' then .error .nullCharacter
  else if 4095 < path.utf8ByteSize then .error .nameTooLong
  else if path = "" then .error .missing
  else .ok ()

/-- Whether a single name is at most 255 bytes. -/
def fits (name : String) : Bool :=
  name.utf8ByteSize ≤ 255

end Path

end Reckon
