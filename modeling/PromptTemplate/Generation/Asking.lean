/-
`Asking.lean` -- generating with wildcards that are kept in a directory.

The answers of a directory stay the same while prompts are generated, so generating
only notes which names it asked for. Afterwards the directory keeps what it had to
read for them.
-/
import PromptTemplate.Generation.Generator
import PromptTemplate.Wildcard.Directory

set_option autoImplicit false

namespace PromptTemplate

/-- The names that were asked for between two sessions, the latest first. -/
def newlyAsked (before after : Session) : List Text :=
  after.asked.take (after.asked.length - before.asked.length)

namespace WildcardDirectory

/-- The environment in which the wildcards of a directory are used. -/
def environment (d : WildcardDirectory) (tree : FileTree) (env : Environment) : Environment :=
  { env with resolve := d.answer tree }

/-- Produces prompts with the wildcards of a directory. -/
def generate (tree : FileTree) (d : WildcardDirectory) (declaration : GrammarDeclaration)
    (env : Environment) (subject : Subject) (method : Text) (count : Number) (s : Session) :
    Except GenerationError (List Text) × Session × WildcardDirectory :=
  let (result, after) :=
    PromptTemplate.generate declaration (d.environment tree env) subject method count s
  (result, after, d.afterAsking tree (newlyAsked s after))

/-- Goes on with a generator that uses the wildcards of a directory. -/
def goOn (tree : FileTree) (d : WildcardDirectory) (generator : Generator) (env : Environment)
    (subject : Subject) (count : Number) (method : Option Text) :
    Except GenerationError (List Text) × Generator × WildcardDirectory :=
  let (result, after) := generator.generate (d.environment tree env) subject count method
  (result, after, d.afterAsking tree (newlyAsked generator.session after.session))

end WildcardDirectory

end PromptTemplate
