/-
`Collections.lean` -- wildcards whose values are given.
-/
import PromptTemplate.Wildcard.Glob
import PromptTemplate.Wildcard.LoadError

set_option autoImplicit false

namespace PromptTemplate

/-- Collections of values by name; no name occurs twice. -/
structure Collections where
  entries : List (Text × List Text)

namespace Collections

/-- The values of one collection; an unknown name has none. -/
def values (c : Collections) (name : Text) : List Text := (c.entries.lookup name).getD []

/-- The values of a name, or of all names that it matches. -/
def resolve (c : Collections) (name : Text) : List Text :=
  if Glob.isPattern name then Glob.resolve name (c.entries.map (·.1)) c.values else c.values name

/-- The names in ascending order. -/
def names (c : Collections) : List Text := Text.sort (c.entries.map (·.1))

/-- The values of a name as an answer that can not fail. -/
def answer (c : Collections) (name : Text) : Except LoadError (List Text) := .ok (c.resolve name)

end Collections

end PromptTemplate
