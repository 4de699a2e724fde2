/-
`Directory.lean` -- wildcards in a directory of text files.

A collection is a file with one value a line. Every file is read once and its
values are kept, and so is the listing, until they are cleared. Nothing outside of
the directory is read.
-/
import PromptTemplate.Files.Tree
import PromptTemplate.Wildcard.Glob
import PromptTemplate.Wildcard.LoadError

set_option autoImplicit false

namespace PromptTemplate

/-- A directory of collections, the values that were read, and the listing if it was
made. -/
structure WildcardDirectory where
  base : Path
  loaded : List (Text × List Text)
  listed : Option (List Text)

namespace WildcardDirectory

/-- The end of the name of a file that is a collection. -/
def extension : Text := units ".txt"

/-- The values in the text of a file: its lines trimmed, without blank ones and
those that begin with a number sign. -/
def valuesOf (source : Text) : List Text :=
  ((Text.splitAt 10 source).map Text.trim).filter fun line => !line.isEmpty && line.head? != some 35

/-- The directory that a written path leads to. -/
def ofPath (tree : FileTree) (written : Text) : Except LoadError WildcardDirectory :=
  let base := tree.resolve written
  match tree.at? base with
  | some .directory => .ok ⟨base, [], none⟩
  | _ => .error (.noDirectory (Path.toText base))

/-- Whether a path lies below the directory. -/
def contains (d : WildcardDirectory) (path : Path) : Bool :=
  !d.base.isEmpty && d.base.isPrefixOf path && path != d.base

/-- The values that a collection has in the files; none when there is no such file
below the directory. -/
def fileValues (tree : FileTree) (d : WildcardDirectory) (name : Text) :
    Except LoadError (List Text) :=
  let path := Path.resolve d.base (name ++ extension)
  if d.contains path then
    match tree.at? path with
    | none => .ok []
    | some entry =>
      match FileTree.textOf entry with
      | .ok source => .ok (valuesOf source)
      | .error fault => .error (.unreadable (Path.toText path) (fault.message .read))
  else .ok []

/-- The values of one collection, read when they are needed for the first time. -/
def load (tree : FileTree) (name : Text) (d : WildcardDirectory) :
    Except LoadError (List Text) × WildcardDirectory :=
  match d.loaded.lookup name with
  | some values => (.ok values, d)
  | none =>
    match fileValues tree d name with
    | .error error => (.error error, d)
    | .ok values => (.ok values, { d with loaded := (name, values) :: d.loaded })

/-- The values of several collections, up to the first that can not be read. -/
def loadAll (tree : FileTree) : List Text → WildcardDirectory →
    Except LoadError (List Text) × WildcardDirectory
  | [], d => (.ok [], d)
  | name :: names, d =>
    match load tree name d with
    | (.error error, d) => (.error error, d)
    | (.ok values, d) =>
      match loadAll tree names d with
      | (.error error, d) => (.error error, d)
      | (.ok rest, d) => (.ok (values ++ rest), d)

/-- A text without its last units. -/
def dropEnd (count : Nat) (t : Text) : Text := t.take (t.length - count)

/-- The name of the collection in a file, if it is one. -/
def nameOf? (names : Path) : Option Text :=
  match names.getLast? with
  | none => none
  | some last =>
    if Text.endsWith (last.map CodeUnit.toLower) extension then
      some (dropEnd extension.length (Text.join [Path.slash] names))
    else none

/-- The names of all collections in ascending order, listed when they are needed for
the first time. -/
def list (tree : FileTree) (d : WildcardDirectory) : List Text × WildcardDirectory :=
  match d.listed with
  | some names => (names, d)
  | none =>
    let names := Text.sort ((tree.filesBelow d.base).filterMap nameOf?)
    (names, { d with listed := some names })

/-- The values of a name, or of all names that it matches. -/
def resolve (tree : FileTree) (name : Text) (d : WildcardDirectory) :
    Except LoadError (List Text) × WildcardDirectory :=
  if Glob.isPattern name then
    let (names, d) := list tree d
    match loadAll tree (Glob.matching name names) d with
    | (.error error, d) => (.error error, d)
    | (.ok values, d) => (.ok values.eraseDups, d)
  else load tree name d

/-- The values of a name as they are now. -/
def answer (tree : FileTree) (d : WildcardDirectory) (name : Text) : Except LoadError (List Text) :=
  (resolve tree name d).1

/-- The directory after it was asked for some names, the latest first. -/
def afterAsking (tree : FileTree) (d : WildcardDirectory) (asked : List Text) : WildcardDirectory :=
  asked.foldr (fun name d => (resolve tree name d).2) d

/-- Forgets what was read. -/
def clear (d : WildcardDirectory) : WildcardDirectory := { d with loaded := [], listed := none }

end WildcardDirectory

end PromptTemplate
