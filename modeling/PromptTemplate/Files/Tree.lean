/-
`Tree.lean` -- a tree of files.

A tree says for every path what is there: the bytes of a file, or a directory. The
root is always a directory. Looking a written path up follows it name by name, and
every name on the way must be that of a directory.
-/
import PromptTemplate.Files.Path
import PromptTemplate.Text.Utf8

set_option autoImplicit false

namespace PromptTemplate

/-- What is at a path. -/
inductive Entry
  | file (bytes : Bytes)
  | directory
  deriving DecidableEq, Repr

/-- What is at each path below the root, and the directory in which written paths
start. -/
structure FileTree where
  entries : List (Path × Entry)
  current : Path

/-- Why a file can not be used. -/
inductive FileFault
  | missing
  | notDirectory
  | isDirectory
  deriving DecidableEq, Repr

/-- What was to be done with a file. -/
inductive FileUse
  | read
  | openFile (path : Text)
  | makeDirectory (path : Text)
  deriving DecidableEq, Repr

/-- The fault in words. -/
def FileFault.message (use : FileUse) (fault : FileFault) : Text :=
  let reason :=
    match fault with
    | missing => units "ENOENT: no such file or directory"
    | notDirectory => units "ENOTDIR: not a directory"
    | isDirectory => units "EISDIR: illegal operation on a directory"
  let what :=
    match use with
    | .read => units "read"
    | .openFile path => units "open '" ++ path ++ units "'"
    | .makeDirectory path => units "mkdir '" ++ path ++ units "'"
  reason ++ units ", " ++ what

namespace FileTree

/-! ## 1. Looking -/

/-- A tree with nothing in it but the way to the directory in which paths start. -/
def empty (current : Path) : FileTree :=
  ⟨(List.range current.length).map fun count => (current.take (count + 1), .directory), current⟩

/-- What is at a path. -/
def at? (tree : FileTree) (path : Path) : Option Entry :=
  if path.isEmpty then some .directory else tree.entries.lookup path

/-- Goes one name on from a path, which must be that of a directory. -/
def enter (tree : FileTree) (path : Path) (name : Text) : Except FileFault Path :=
  match tree.at? path with
  | none => .error .missing
  | some (.file _) => .error .notDirectory
  | some .directory => .ok (path.follow name)

/-- Where a written path starts. -/
def startOf (tree : FileTree) (written : Text) : Path :=
  if written.head? = some Path.slash then [] else tree.current

/-- Where a written path leads. -/
def walk (tree : FileTree) (written : Text) : Except FileFault Path :=
  if written.isEmpty then .error .missing
  else (Text.splitAt Path.slash written).foldlM tree.enter (tree.startOf written)

/-- What a written path leads to. -/
def find (tree : FileTree) (written : Text) : Except FileFault Entry :=
  match tree.walk written with
  | .error fault => .error fault
  | .ok path =>
    match tree.at? path with
    | none => .error .missing
    | some entry => .ok entry

/-- Whether a written path leads to anything. -/
def has (tree : FileTree) (written : Text) : Bool := (tree.find written).isOk

/-- The path of a written path by its text alone. -/
def resolve (tree : FileTree) (written : Text) : Path := Path.resolve tree.current written

/-- The text of a file, if that is what is there. -/
def textOf : Entry → Except FileFault Text
  | .file bytes => .ok (Utf8.decode bytes)
  | .directory => .error .isDirectory

/-- The text of the file that a written path leads to. -/
def read (tree : FileTree) (written : Text) : Except FileFault Text :=
  match tree.find written with
  | .error fault => .error fault
  | .ok entry => textOf entry

/-- The files below a directory, each by the names that lead to it from there. -/
def filesBelow (tree : FileTree) (base : Path) : List Path :=
  tree.entries.filterMap fun entry =>
    match entry.2 with
    | .file _ => if base.isPrefixOf entry.1 then some (entry.1.drop base.length) else none
    | .directory => none

/-! ## 2. Changing -/

/-- Sets what is at a path. -/
def set (tree : FileTree) (path : Path) (entry : Entry) : FileTree :=
  if tree.entries.any (fun e => e.1 = path) then
    { tree with entries := tree.entries.map fun e => if e.1 = path then (path, entry) else e }
  else { tree with entries := tree.entries ++ [(path, entry)] }

/-- Makes a directory where nothing is. -/
def ensureDirectory (tree : FileTree) (path : Path) : FileTree :=
  match tree.at? path with
  | none => tree.set path .directory
  | some _ => tree

/-- Follows names from a path, making the directories that are missing. -/
def makeAlong (tree : FileTree) : (path : Path) → List Text → Except FileFault FileTree
  | path, [] =>
    match tree.at? path with
    | some (.file _) => .error .notDirectory
    | _ => .ok (tree.ensureDirectory path)
  | path, name :: names =>
    match tree.at? path with
    | some (.file _) => .error .notDirectory
    | _ => makeAlong (tree.ensureDirectory path) (path.follow name) names

/-- Makes the directory of a written path and those on the way to it. -/
def makeDirectories (tree : FileTree) (written : Text) : Except FileFault FileTree :=
  if written.isEmpty then .error .missing
  else tree.makeAlong (tree.startOf written) (Text.splitAt Path.slash written)

/-- A written path without the slashes at its end. -/
def withoutClosing : Text → Text
  | [] => []
  | u :: rest =>
    match withoutClosing rest with
    | [] => if u = Path.slash then [] else [u]
    | kept => u :: kept

/-- Adds bytes to the end of a file, which is made when it is missing. A slash at the
end of its path asks for a directory. -/
def append (tree : FileTree) (written : Text) (bytes : Bytes) : Except FileFault FileTree :=
  match tree.walk (withoutClosing written) with
  | .error fault => .error fault
  | .ok path =>
    if written.getLast? = some Path.slash then .error .isDirectory
    else
      match tree.at? path with
      | some .directory => .error .isDirectory
      | some (.file before) => .ok (tree.set path (.file (before ++ bytes)))
      | none => .ok (tree.set path (.file bytes))

/-- Puts a file where a written path says, together with the directories on the
way. -/
def write (tree : FileTree) (written : Text) (bytes : Bytes) : Except FileFault FileTree :=
  let path := tree.resolve written
  match tree.makeDirectories (Path.toText path.dropLast) with
  | .error fault => .error fault
  | .ok tree =>
    match tree.at? path with
    | some .directory => .error .isDirectory
    | _ => .ok (tree.set path (.file bytes))

/-- Takes away what is at a written path and everything below it. -/
def remove (tree : FileTree) (written : Text) : FileTree :=
  let path := tree.resolve written
  { tree with entries := tree.entries.filter fun e => !path.isPrefixOf e.1 }

end FileTree

end PromptTemplate
