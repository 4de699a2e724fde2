/-
`Walk.lean` -- rendering a tree to one text.

A walk visits every node once, depth first and from left to right. It binds
variables in the scope that it is given and leaves its marks in the session, and
both stay as they are when it fails. The rules of one node are a step over the
rendering of its parts (`renderNode`); `renderOnce` closes the recursion up to a
depth, because a wildcard can lead back to itself.
-/
import PromptTemplate.Expansion.Choices
import PromptTemplate.Expansion.Session
import PromptTemplate.Text.Wrap

set_option autoImplicit false

namespace PromptTemplate

/-- What a walk carries along. -/
structure Walking where
  scope : Scope
  session : Session

/-- An action of a walk. The state goes on behind an error as well. -/
def Walk (α : Type) := Walking → Except WalkError α × Walking

namespace Walk

/-! ## 1. Actions -/

/-- Does nothing. -/
def done {α : Type} (a : α) : Walk α := fun w => (.ok a, w)

/-- Ends the walk. -/
def fail {α : Type} (error : WalkError) : Walk α := fun w => (.error error, w)

/-- One action after another, up to the first error. -/
def andThen {α β : Type} (action : Walk α) (next : α → Walk β) : Walk β := fun w =>
  match action w with
  | (.ok a, w) => next a w
  | (.error error, w) => (.error error, w)

instance : Monad Walk where
  pure := done
  bind := andThen

/-- What a name stands for here. -/
def lookup (name : Text) : Walk (Option Binding) := fun w => (.ok (w.scope.lookup name), w)

/-- Binds a name in the scope. -/
def bindName (name : Text) (binding : Binding) : Walk Unit := fun w =>
  (.ok (), { w with scope := w.scope.bind name binding })

/-- Goes through an action of the session. -/
def ofSession {α : Type} (action : Session → Except WalkError α × Session) : Walk α := fun w =>
  let (result, session) := action w.session
  (result, { w with session := session })

/-- Runs an action in a scope inside the present one. -/
def within {α : Type} (frame : Frame) (action : Walk α) : Walk α := fun w =>
  let (result, w) := action { w with scope := w.scope.push frame }
  -- the frame is dropped whether the walk went well or not
  (result, { w with scope := w.scope.pop })

/-- The next draw. -/
def draw (env : Environment) : Walk Number := fun w =>
  (.ok (env.source w.session.drawn),
    { w with session := { w.session with drawn := w.session.drawn + 1 } })

/-- A whole number between two bounds. -/
def drawInt (env : Environment) (least most : Nat) : Walk Number := fun w =>
  let (value, drawn) := randomInt env.round env.source w.session.drawn (.ofNat least) (.ofNat most)
  (.ok value, { w with session := { w.session with drawn := drawn } })

/-- An index in proportion to its weight. -/
def drawWeighted (env : Environment) (weights : List Rat) : Walk (Option Nat) := fun w =>
  let (index, drawn) := weightedIndex env.round env.source w.session.drawn (weights.map .finite)
  (.ok index, { w with session := { w.session with drawn := drawn } })

/-- The place of a rotating node on this visit. -/
def turn (label : Label) (size : Nat) : Walk Nat := fun w =>
  let (place, counters) := w.session.counters.next label size
  (.ok place, { w with session := { w.session with counters := counters } })

/-- The member at an index that was drawn. -/
def pick {α : Type} (members : List α) (index : Option Nat) : Walk α :=
  match index.bind (members[·]?) with
  | some member => done member
  | none => fail .drawOutOfRange

end Walk

/-! ## 2. Methods -/

/-- How a walk applies a method: a node to be exhausted steps through its choices,
one on each visit. -/
def Sampling.walked : Sampling → Sampling
  | .random => .random
  | .combinatorial => .cyclical
  | .cyclical => .cyclical

/-! ## 3. The rules of the nodes -/

/-- Rendering: a node, a method, and the text before the node in the same output. -/
abbrev Renderer := Command → Sampling → Text → Walk Text

/-- Nodes one after another; each has what was rendered so far before it. -/
def renderSequence (render : Renderer) (method : Sampling) : List Command →
    (ambient : Text) → Walk Text
  | [], _ => return []
  | child :: children, ambient => do
    let first ← render child method ambient
    let rest ← renderSequence render method children (ambient ++ first)
    return first ++ rest

/-- Nodes that all have the same text before them. -/
def renderEach (render : Renderer) (method : Sampling) (ambient : Text) : List Command →
    Walk (List Text)
  | [] => return []
  | value :: values => do
    let first ← render value method ambient
    let rest ← renderEach render method ambient values
    return first :: rest

/-- Options drawn by weight, each rendered before the next one is drawn. -/
def renderDrawn (env : Environment) (render : Renderer) (options : List (Weighted Command))
    (ambient : Text) :
    (count : Nat) → Walk (List Text)
  | 0 => return []
  | count + 1 => do
    -- every pick draws anew, so an option can come more than once
    let index ← Walk.drawWeighted env (options.map (·.weight))
    let option ← Walk.pick options index
    let first ← render option.value .random ambient
    let rest ← renderDrawn env render options ambient count
    return first :: rest

/-- The options with these indices. -/
def optionsAt (options : List (Weighted Command)) (choice : List Nat) : List Command :=
  choice.filterMap fun index => options[index]?.map (·.value)

/-- A variant: drawn, or the choice whose turn it is. -/
def renderVariant (env : Environment) (render : Renderer) (label : Label)
    (options : List (Weighted Command)) (least most : Nat) (separator : Text) (method : Sampling)
    (ambient : Text) : Walk Text :=
  let weights := options.map (·.weight)
  if method = .random then
    -- without an option of positive weight nothing is drawn
    if (eligible weights).isEmpty then return []
    else do
      let count ← Walk.drawInt env least most
      -- a draw of one or more gives a count beyond the most
      let parts ← renderDrawn env render options ambient count.loopCount
      return Text.join separator parts
  else
    let choices := variantChoices weights least most
    if choices.isEmpty then return []
    else do
      let place ← Walk.turn label choices.length
      -- the choices of one visit come from the cycle of this node alone
      let choice ← Walk.pick choices (some place)
      let parts ← renderEach render method ambient (optionsAt options choice)
      return Text.join separator parts

/-- Which of several candidates a walk takes: drawn, or the one whose turn it is. -/
def candidateIndex (env : Environment) (label : Label) (method : Sampling) (size : Nat) :
    Walk (Option Nat) :=
  if method = .random then do
    let drawn ← Walk.draw env
    return (Number.mul env.round drawn (.ofNat size)).floor.toNat?
  else do
    let place ← Walk.turn label size
    return some place

/-- The name of a wildcard. -/
def renderName (render : Renderer) (method : Sampling) (ambient : Text) : WildcardName Command →
    Walk Text
  | .fixed name => return name
  | .rendered command => render command method ambient

/-- A wildcard: one of its candidates, where its inline variables are bound. -/
def renderWildcard (env : Environment) (render : Renderer) (label : Label)
    (name : WildcardName Command) (inlined : List (Text × Command)) (sampling : Option Sampling)
    (method : Sampling) (ambient : Text) :
    Walk Text := do
  -- the marker counts for the candidates, not for the name
  let effective := sampling.getD method
  let name ← renderName render method ambient name
  let candidates ← Walk.ofSession (Session.wildcardCandidates env name effective)
  if candidates.isEmpty then return []
  else
    let index ← candidateIndex env label effective.walked candidates.length
    let candidate ← Walk.pick candidates index
    -- inline values are bound around the candidate only
    fun w => Walk.within (inlineFrame w.scope inlined) (render candidate effective.walked ambient) w

/-- Whether a part is put in: by chance, or when it is its turn. -/
def isIncluded (env : Environment) (label : Label) (chance : Rat) (method : Sampling) : Walk Bool :=
  if method = .random then do
    let drawn ← Walk.draw env
    -- the comparison is strict, so a chance of zero never comes in
    return drawn.lt (.finite chance)
  else do
    let outcomes := probabilityChoices (.finite chance)
    let place ← Walk.turn label outcomes.length
    Walk.pick outcomes (some place)

/-- A part that is not always put in. -/
def renderProbability (env : Environment) (render : Renderer) (label : Label) (chance : Rat)
    (value : Command) (method : Sampling) (ambient : Text) : Walk Text := do
  let included ← isIncluded env label chance method
  if included then render value method ambient else return []

/-- The rendering of a name's binding, if it has one. -/
def renderBinding (render : Renderer) (method : Sampling) (ambient : Text) (name : Text) :
    Walk (Option Text) := do
  match ← Walk.lookup name with
  | none => return none
  | some (.evaluated text) => return some text
  | some (.deferred command previous) =>
    -- while the value renders, its name means what it meant before
    return some (← Walk.within (resolvingFrame name previous) (render command method ambient))

/-- The text that a branch tests; an unbound variable reads as nothing. -/
def renderTarget (render : Renderer) (method : Sampling) (ambient : Text) : Option Text → Walk Text
  | none => return ambient
  | some key => return (← renderBinding render method ambient key).getD []

/-- The first branch whose guard holds, or else the last resort. -/
def renderCondition (render : Renderer) (method : Sampling) (ambient : Text) (otherwise : Command) :
    List (Guarded Command) → Walk Text
  | [] => render otherwise method ambient
  | branch :: branches => do
    let target ← renderTarget render method ambient branch.guard.key
    if branch.guard.pattern.test target then render branch.value method ambient
    else renderCondition render method ambient otherwise branches

/-- The reading of a variable. -/
def renderAccess (render : Renderer) (method : Sampling) (ambient : Text) (name : Text)
    (fallback : Option Command) : Walk Text := do
  match ← renderBinding render method ambient name with
  | some text => return text
  | none =>
    match fallback with
    | some command => render command method ambient
    | none => Walk.fail (.unknownVariable name)

/-- The binding of a variable: to its text now, or to the command. -/
def renderAssignment (render : Renderer) (method : Sampling) (ambient : Text) (name : Text)
    (value : Command) (overwrite immediate : Bool) : Walk Text := do
  let earlier ← Walk.lookup name
  if !overwrite && earlier.isSome then return []
  else if immediate then
    let text ← render value method ambient
    -- the binding comes after the value, which may still read the earlier one
    Walk.bindName name (.evaluated text)
    return []
  else
    Walk.bindName name (.deferred value earlier)
    return []

/-- A node, given how its parts render. -/
def renderNode (env : Environment) (render : Renderer) (command : Command) (method : Sampling)
    (ambient : Text) :
    Walk Text :=
  match command with
  | .literal text => return text
  | .comment _ => return []
  | .sequence children => renderSequence render method children ambient
  | .variant label options least most separator sampling =>
    renderVariant env render label options least most separator (sampling.getD method).walked
      ambient
  | .wildcard label name inlined sampling =>
    renderWildcard env render label name inlined sampling method ambient
  | .wrap wrapper inner => do
    let inner ← render inner method ambient
    let wrapper ← render wrapper method ambient
    return applyWrap wrapper inner
  | .probability label chance value sampling =>
    renderProbability env render label chance value (sampling.getD method).walked ambient
  | .condition branches otherwise => renderCondition render method ambient otherwise branches
  | .access name fallback => renderAccess render method ambient name fallback
  | .assignment name value overwrite immediate =>
    renderAssignment render method ambient name value overwrite immediate

/-- Rendering that goes at most `depth` nodes deep into itself. -/
def renderWithin (env : Environment) : (depth : Nat) → Renderer
  -- the depth stands for the stack of calls, which a recursion without end exhausts
  | 0, _, _, _, w => Walk.fail .tooDeep w
  | depth + 1, command, method, ambient, w =>
    renderNode env (renderWithin env depth) command method ambient w

/-- Renders a tree once. -/
def renderOnce (env : Environment) : Renderer := renderWithin env env.depthLimit

end PromptTemplate
