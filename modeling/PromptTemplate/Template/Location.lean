/-
`Location.lean` -- lines and columns, and the errors that carry them.
-/
import PromptTemplate.Command.Build
import PromptTemplate.Text.Quoted

set_option autoImplicit false

namespace PromptTemplate

/-! ## 1. Line and column -/

/-- Line and column of the place `position` units into a text. `line` and
`column` are those of its front; a line break moves to the next line, and past the
end of the text every unit counts as one column. -/
def locateFrom : (line column : Nat) → Text → (position : Nat) → Nat × Nat
  | line, column, _, 0 => (line, column)
  | line, column, [], position + 1 => (line, column + (position + 1))
  | line, column, u :: rest, position + 1 =>
    if u = 10 then locateFrom (line + 1) 1 rest position
    else locateFrom line (column + 1) rest position

/-- Line and column, both from one, of an offset. -/
def locate (source : Text) (position : Nat) : Nat × Nat := locateFrom 1 1 source position

/-! ## 2. Errors in a template -/

/-- What is wrong at a place of a template. `unexpected` holds what would have been
accepted there and the unit that stands there instead. -/
inductive SyntaxFault
  | unexpected (expected : List Text) (found : Option CodeUnit)
  | pattern (error : BuildError)
  | boundTooLarge
  | weightTooLarge
  | inlineName (name : Text)
  deriving DecidableEq, Repr

/-- A fault with its place. -/
structure SyntaxError where
  fault : SyntaxFault
  position : Nat
  line : Nat
  column : Nat
  deriving DecidableEq, Repr

namespace SyntaxFault

/-- The constructs that would have been accepted. -/
def expected : SyntaxFault → List Text
  | unexpected expected _ => expected
  | pattern _ => [units "regular expression"]
  | boundTooLarge => [units "bound"]
  | weightTooLarge => [units "weight"]
  | inlineName _ => [units "variable name"]

/-- What stands at the place. -/
def foundText : Option CodeUnit → Text
  | some u => Text.quote [u]
  | none => units "end of input"

/-- The fault in words. -/
def message : SyntaxFault → Text
  | unexpected [] found => units "unexpected " ++ foundText found
  | unexpected expected found =>
    units "expected " ++ Text.join (units " or ") expected ++ units " but found " ++ foundText found
  | pattern error => error.message
  | boundTooLarge => units "variant bound is too large"
  | weightTooLarge => units "option weight is too large"
  | inlineName name => units "invalid wildcard variable name \"" ++ name ++ units "\""

end SyntaxFault

namespace SyntaxError

/-- A fault at an offset of a source. -/
def ofPosition (source : Text) (position : Nat) (fault : SyntaxFault) : SyntaxError :=
  let (line, column) := locate source position
  ⟨fault, position, line, column⟩

/-- The constructs that would have been accepted. -/
def expected (e : SyntaxError) : List Text := e.fault.expected

/-- The error in words. -/
def message (e : SyntaxError) : Text :=
  units "Syntax error at line " ++ Text.ofNat e.line ++ units ", column " ++ Text.ofNat e.column
    ++ units ": " ++ e.fault.message

/-- The message, the offending line of a template, and a caret under the column. -/
def report (template : Text) (e : SyntaxError) : List Text :=
  [e.message, units "  " ++ ((Text.splitAt 10 template)[e.line - 1]?).getD [],
    units "  " ++ List.replicate (e.column - 1) 32 ++ units "^"]

end SyntaxError

/-- Why a template is not read: an error at a place, a node that is refused, or the name
of an inline variable that its record refuses. `exhausted` stands for blocks or rounds of
a loop that go on beyond the length of the source, which does not happen. -/
inductive ParseError
  | malformed (error : SyntaxError)
  | refused (error : BuildError)
  | readOnly (name record : Text)
  | exhausted
  deriving DecidableEq, Repr

/-- The error in words. -/
def ParseError.message : ParseError → Text
  | malformed error => error.message
  | refused error => error.message
  | readOnly name record =>
    units "Cannot assign to read only property '" ++ name ++ units "' of object '" ++
      record ++ units "'"
  | exhausted => units "Maximum call stack size exceeded"

end PromptTemplate
