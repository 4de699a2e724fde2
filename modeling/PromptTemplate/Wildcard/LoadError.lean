/-
`LoadError.lean` -- why a collection of wildcard values can not be had.
-/
import PromptTemplate.Text

set_option autoImplicit false

namespace PromptTemplate

/-- The directory is missing, or a file of it can not be read. -/
inductive LoadError
  | noDirectory (path : Text)
  | unreadable (path reason : Text)
  deriving DecidableEq, Repr

namespace LoadError

/-- The path at fault. -/
def path : LoadError → Text
  | noDirectory path => path
  | unreadable path _ => path

/-- The error in words. -/
def message : LoadError → Text
  | noDirectory path => units "Wildcard directory does not exist: " ++ path
  | unreadable path reason => units "Failed to read wildcard file " ++ path ++ units ": " ++ reason

end LoadError

end PromptTemplate
