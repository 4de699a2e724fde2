/-
`Glob.lean` -- patterns for the names of wildcards.

Two stars stand for any run of units within a line, one star for any run without a
slash, and every other unit for itself. Stars are paired from the left. A pattern
resolves to the values of all names that it matches, in the order of the names and
each value once.
-/
import PromptTemplate.Text

set_option autoImplicit false

namespace PromptTemplate

/-- A part of a pattern. -/
inductive GlobPart
  | unit (u : CodeUnit)
  | segmentRun
  | anyRun
  deriving DecidableEq, Repr

/-- A pattern for names. -/
abbrev Glob := List GlobPart

namespace Glob

/-- The star. -/
def star : CodeUnit := 42

/-- Whether a name is a pattern. -/
def isPattern (name : Text) : Bool := name.contains star

/-- The parts of a pattern. -/
def read : Text → Glob
  | [] => []
  | [u] => if u = star then [.segmentRun] else [.unit u]
  | u :: v :: rest =>
    if u = star ∧ v = star then .anyRun :: read rest
    else if u = star then .segmentRun :: read (v :: rest)
    else .unit u :: read (v :: rest)

/-- Whether a name is a run of allowed units and then something that goes on as
asked. -/
def run (allowed : CodeUnit → Bool) (next : Text → Bool) : Text → Bool
  | [] => next []
  | u :: rest => next (u :: rest) || (allowed u && run allowed next rest)

/-- Whether a pattern matches a whole name. -/
def accepts : Glob → Text → Bool
  | [], name => name.isEmpty
  | .unit u :: parts, name =>
    match name with
    | [] => false
    | v :: rest => u = v && accepts parts rest
  | .segmentRun :: parts, name => run (fun u => u != 47) (accepts parts) name
  | .anyRun :: parts, name => run (fun u => !u.isLineTerminator) (accepts parts) name

/-- The names that a pattern matches, in ascending order. -/
def matching (pattern : Text) (names : List Text) : List Text :=
  Text.sort (names.filter (accepts (read pattern)))

/-- The values of all names that a pattern matches. -/
def resolve (pattern : Text) (names : List Text) (values : Text → List Text) : List Text :=
  ((matching pattern names).flatMap values).eraseDups

end Glob

end PromptTemplate
