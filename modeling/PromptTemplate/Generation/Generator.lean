/-
`Generator.lean` -- a generator that goes on where it stopped.

It keeps every template and every wildcard value that it has read, and with them
where each rotation stands: the nodes of a template that is kept are the same at every
call. A template and a tree given directly share the counters, but no node of one is a
node of the other.
-/
import PromptTemplate.Generation.Prompts

set_option autoImplicit false

namespace PromptTemplate

/-- The settings of a generator and what it keeps between calls. -/
structure Generator where
  declaration : GrammarDeclaration
  grammar : Grammar
  method : Text
  trees : List (Text × Command)
  session : Session

namespace Generator

/-- A generator that has produced nothing yet. Its grammar has to be a valid one. What it
reads gets the numbers from `first` on. -/
def create (declaration : GrammarDeclaration) (method : Text) (first : Nat) :
    Except ConfigurationError Generator :=
  (Grammar.load declaration).map fun g =>
    ⟨declaration, g, method, [], { Session.fresh first with notices := [.builtParser g.key] }⟩

/-- The tree of a template, read when it is needed for the first time. A template that can
not be read is read again the next time. -/
def parse (generator : Generator) (source : Text) : Except ParseError Command × Generator :=
  match generator.trees.lookup source with
  | some tree => (.ok tree, generator)
  | none =>
    match generator.session.parseTemplate generator.grammar source with
    | (.error error, s) => (.error error, { generator with session := s })
    | (.ok tree, s) =>
      (.ok tree, { generator with trees := (source, tree) :: generator.trees, session := s })

/-- Whether the tree of a template is kept, so that reading it again gives the same
nodes. -/
def keeps (generator : Generator) (source : Text) : Bool := (generator.trees.lookup source).isSome

/-- Produces prompts from a tree, going on with what the generator keeps. -/
def generateTree (generator : Generator) (env : Environment) (tree : Command) (count : Number)
    (method : Option Text) : Except GenerationError (List Text) × Generator :=
  let (result, session) :=
    PromptTemplate.generate generator.declaration env (.tree tree)
      (method.getD generator.method) count generator.session
  (result, { generator with session := session })

/-- Produces prompts from a template, which is read before anything else is looked
at. -/
def generate (generator : Generator) (env : Environment) (subject : Subject) (count : Number)
    (method : Option Text) : Except GenerationError (List Text) × Generator :=
  match subject with
  | .tree tree => generator.generateTree env tree count method
  | .template source =>
    match generator.parse source with
    | (.error error, generator) => (.error (.template error), generator)
    | (.ok tree, generator) => generator.generateTree env tree count method

/-- Forgets all rotations and everything that was read. What is read from now on has other
nodes: wildcard values go to another table. -/
def reset (generator : Generator) : Generator :=
  { generator with
    trees := []
    session :=
      { generator.session with
        counters := .empty
        candidates := ⟨generator.session.numbered, []⟩
        numbered := generator.session.numbered + 1 } }

end Generator

end PromptTemplate
