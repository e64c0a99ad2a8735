import Reckon.Path

/-!
# Trees of files

A tree holds files under their full names, which are the names on the way from the root. A name
that leads on to a file is a folder. Paths that do not start at the root start in the working
folder.

A file is read where its path leads to, and saved there too: then the last name may be new. A
path that ends in a slash is meant for a folder.
-/

namespace Reckon

structure FileTree where
  files : List (List String × ByteArray)
  workingFolder : List String

namespace FileTree

inductive Node where
  | folder
  | file (content : ByteArray)

/-- What stands under a full name. -/
def node? (tree : FileTree) (name : List String) : Option Node :=
  match tree.files.lookup name with
  | some content => some (.file content)
  | none =>
    if name.isPrefixOf tree.workingFolder || tree.files.any (name.isPrefixOf ·.1) then some .folder
    else none

/-- The folder in which a path starts. -/
def startOf (tree : FileTree) (path : String) : List String :=
  if Path.isAbsolute path then [] else tree.workingFolder

/-- Where names lead from a folder. -/
def walk (tree : FileTree) (folder : List String) : List String → Except PathFault Node
  | [] => .ok .folder
  | name :: rest =>
    if name = "" ∨ name = "." then tree.walk folder rest
    else if name = ".." then tree.walk folder.dropLast rest
    else if !Path.fits name then .error .nameTooLong
    else
      match tree.node? (folder ++ [name]), rest with
      | none, _ => .error .missing
      | some .folder, _ => tree.walk (folder ++ [name]) rest
      | some (.file content), [] => .ok (.file content)
      | some (.file _), _ => .error .notFolder

/-- What a path leads to. -/
def find (tree : FileTree) (path : String) : Except PathFault Node := do
  Path.check path
  tree.walk (tree.startOf path) (Path.segments path)

/-- The content of a file. -/
def read (tree : FileTree) (path : String) : Except PathFault ByteArray := do
  match ← tree.find path with
  | .folder => throw .isFolder
  | .file content => return content

/-- That a path leads to a folder. -/
def enter (tree : FileTree) (path : String) : Except PathFault Unit := do
  match ← tree.find path with
  | .folder => return
  | .file _ => throw .notFolder

/-- The full name of the file to save, where names lead from a folder. -/
def place (tree : FileTree) (folder : List String) : List String → Except PathFault (List String)
  | [] => .error .isFolder
  | name :: rest =>
    if name = "" ∨ name = "." then tree.place folder rest
    else if name = ".." then tree.place folder.dropLast rest
    else if rest ≠ [] ∧ rest.all (· = "") then .error .isFolder
    else if !Path.fits name then .error .nameTooLong
    else
      match tree.node? (folder ++ [name]), rest with
      | some .folder, _ => tree.place (folder ++ [name]) rest
      | some (.file _), [] | none, [] => .ok (folder ++ [name])
      | some (.file _), _ => .error .notFolder
      | none, _ => .error .missing

/-- The full name under which a path saves a file. -/
def placeOf (tree : FileTree) (path : String) : Except PathFault (List String) := do
  Path.check path
  tree.place (tree.startOf path) (Path.segments path)

end FileTree

end Reckon
