/-
`Path.lean` -- names of files.

A path is the list of names that lead from the root to a file; a name is neither
empty nor one of the two dots, and holds no slash. A written path is brought into
this form by its text alone: it starts at the root or at a directory, and two dots
take back the name before them.
-/
import PromptTemplate.Text

set_option autoImplicit false

namespace PromptTemplate

/-- The names that lead from the root to a file. -/
abbrev Path := List Text

namespace Path

/-- The unit between the names. -/
def slash : CodeUnit := 47

/-- The name of a directory within itself. -/
def here : Text := units "."

/-- The name of the directory around a directory. -/
def up : Text := units ".."

/-- One name of a written path followed. -/
def follow (path : Path) (name : Text) : Path :=
  if name.isEmpty || name = here then path
  else if name = up then path.dropLast
  else path ++ [name]

/-- The path of a written path that starts at a directory unless it starts at the
root. -/
def resolve (start : Path) (written : Text) : Path :=
  (Text.splitAt slash written).foldl follow (if written.head? = some slash then [] else start)

/-- The path as it is written from the root on. -/
def toText (path : Path) : Text := slash :: Text.join [slash] path

/-- One name of a relative path followed; dots that lead out of it stay. -/
def followRelative (names : Path) (name : Text) : Path :=
  if name.isEmpty || name = here then names
  else if name = up then
    match names.getLast? with
    | none => [up]
    | some last => if last = up then names ++ [up] else names.dropLast
  else names ++ [name]

/-- A written path with dots and doubled slashes taken out. -/
def normalize (written : Text) : Text :=
  let names := Text.splitAt slash written
  let closing : Text := if written.getLast? = some slash then [slash] else []
  if written.isEmpty then here
  else if written.head? = some slash then
    match names.foldl follow [] with
    | [] => [slash]
    | path => toText path ++ closing
  else
    match names.foldl followRelative [] with
    | [] => here ++ closing
    | path => Text.join [slash] path ++ closing

/-- Two written paths put together. -/
def join (first second : Text) : Text :=
  normalize (Text.join [slash] ([first, second].filter fun part => !part.isEmpty))

end Path

end PromptTemplate
