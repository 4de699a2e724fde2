/-
`Scope.lean` -- the variables that are in reach.

A binding is a finished text, or a command that is rendered again at every
reading. Such a command renders where its own name reads as the binding that it
replaced, so a variable can be extended by itself and never runs in a circle. A
scope has entries of its own and reads through to the scopes around it; an entry
without a binding hides the name.
-/
import PromptTemplate.Command

set_option autoImplicit false

namespace PromptTemplate

/-- What a name stands for. A deferred command keeps the binding that its name had
when this one was made. -/
inductive Binding
  | evaluated (text : Text)
  | deferred (command : Command) (previous : Option Binding)

/-- The own entries of a scope, the latest first. No binding hides the name. -/
abbrev Frame := List (Text × Option Binding)

/-- Entries, and those of the scopes around, the innermost first. -/
structure Scope where
  own : Frame
  parents : List Frame

/-- What the innermost frame with an entry for a name says of it. -/
def lookupIn (name : Text) : List Frame → Option Binding
  | [] => none
  | frame :: frames =>
    match frame.lookup name with
    | some binding => binding
    | none => lookupIn name frames

namespace Scope

/-- A scope of its own. -/
def root (entries : Frame) : Scope := ⟨entries, []⟩

/-- The binding of a name, if it has one. -/
def lookup (s : Scope) (name : Text) : Option Binding := lookupIn name (s.own :: s.parents)

/-- Whether a name is bound. -/
def has (s : Scope) (name : Text) : Bool := (s.lookup name).isSome

/-- Binds a name in the scope itself. -/
def bind (s : Scope) (name : Text) (binding : Binding) : Scope :=
  { s with own := (name, some binding) :: s.own }

/-- A scope inside this one. -/
def push (s : Scope) (frame : Frame) : Scope := ⟨frame, s.own :: s.parents⟩

/-- The scope that this one is inside of. -/
def pop (s : Scope) : Scope :=
  match s.parents with
  | [] => s
  | frame :: frames => ⟨frame, frames⟩

end Scope

/-- The frame in which the deferred binding of a name renders. -/
def resolvingFrame (name : Text) (previous : Option Binding) : Frame := [(name, previous)]

/-- The frame of a wildcard's inline variables. Each keeps the caller's binding of
its name. -/
def inlineFrame (scope : Scope) (inlined : List (Text × Command)) : Frame :=
  (inlined.filter fun v => v.1 != unboundName).map fun v =>
    (v.1, some (.deferred v.2 (scope.lookup v.1)))

end PromptTemplate
