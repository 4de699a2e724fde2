/-
`Prompts.lean` -- producing prompts from a template.

Random and cyclical sampling give exactly as many prompts as are asked for, each
from a scope without variables. Exhaustive sampling gives the first different ones
of the enumeration, so fewer when it runs out. Either all prompts come back or an
error does.
-/
import PromptTemplate.Expansion.Enumeration
import PromptTemplate.Grammar.Declared

set_option autoImplicit false

namespace PromptTemplate

/-- Why no prompts are produced. -/
inductive GenerationError
  | count (given : Number)
  | method (given : Text)
  | configuration (error : ConfigurationError)
  | template (error : ParseError)
  | walk (error : WalkError)
  deriving DecidableEq, Repr

/-- The error in words. -/
def GenerationError.message : GenerationError → Text
  | count given => units "Prompt count must be a non-negative integer, got: " ++ given.toText
  | method given =>
    units "Unknown sampling method: " ++ given ++ units ". Must be " ++ Sampling.names ++ units "."
  | configuration error => error.message
  | template error => error.message
  | walk error => error.message

/-- What prompts are made from: a template still to be read, or a tree. -/
inductive Subject
  | template (source : Text)
  | tree (command : Command)

/-- The tree to render. A template is read anew for it. -/
def Subject.read (g : Grammar) (s : Session) : Subject → Except ParseError Command × Session
  | template source => s.parseTemplate g source
  | tree command => (.ok command, s)

/-- Renders a tree several times, each time from a scope without variables. -/
def renderRepeatedly (env : Environment) (command : Command) (method : Sampling) :
    (count : Nat) → Session → Except WalkError (List Text) × Session
  | 0, s => (.ok [], s)
  | count + 1, s =>
    match renderOnce env command method [] ⟨.root [], s⟩ with
    | (.error error, w) => (.error error, w.session)
    | (.ok first, w) =>
      match renderRepeatedly env command method count w.session with
      | (.error error, s) => (.error error, s)
      | (.ok rest, s) => (.ok (first :: rest), s)

/-- The prompts of a tree. Nothing is done for a count of zero. -/
def Command.prompts (env : Environment) (command : Command) (method : Sampling) (count : Nat)
    (s : Session) :
    Except WalkError (List Text) × Session :=
  if count = 0 then (.ok [], s)
  else
    let (result, s) :=
      if method = .combinatorial then enumerateDistinct env command (.root []) (some count) s
      else renderRepeatedly env command method count s
    match result with
    | .error error => (.error error, s)
    | .ok prompts =>
      (.ok prompts, { s with notices := .generated method count prompts.length :: s.notices })

/-- Produces prompts. The count is looked at first, then the method, then the
declared grammar, which also reads the values of wildcards, then the template. -/
def generate (declaration : GrammarDeclaration) (env : Environment) (subject : Subject)
    (method : Text) (count : Number) (s : Session) : Except GenerationError (List Text) × Session :=
  match count.toNat? with
  | none => (.error (.count count), s)
  | some n =>
    match Sampling.ofName? method with
    | none => (.error (.method method), s)
    | some sampling =>
      match Grammar.load declaration with
      | .error error => (.error (.configuration error), s)
      | .ok g =>
        match subject.read g s with
        | (.error error, s) => (.error (.template error), s)
        | (.ok command, s) =>
          let (result, s) := command.prompts { env with grammar := g } sampling n s
          (result.mapError .walk, s)

end PromptTemplate
