/-
`Renumbered.lean` -- rendering under other numbers.

Readings of templates and tables of wildcard values have numbers so that nodes can be told apart,
and for nothing else. A label is looked at in one place only, where the position of a node is found
among those of the others, so rendering commutes with every change of numbers that keeps different
ones different. `Walk.Renumbers` says so of a walk: started in the renumbered state it does what it
does, renumbered. The ways of putting walks together keep this, and with them every rule of a node.
-/
import Mathlib.Logic.Embedding.Basic
import PromptTemplate.Expansion.Walk
import PromptTemplate.Proofs.Expansion.Following
import PromptTemplate.Proofs.Template.Doubles

set_option autoImplicit false

namespace PromptTemplate

/-! ## 1. States under other numbers -/

/-- Other numbers for what was read, where different numbers stay different. -/
abbrev Renumbering := Nat ↪ Nat

section Renumbered

variable (h : Renumbering)

/-- The origin with its number changed. What was put together by hand has none. -/
def Origin.renumbered : Origin → Origin
  | .template number => .template (h number)
  | .candidate table value => .candidate (h table) value
  | .built index => .built index

/-- The same place in the renumbered origin. -/
def Label.renumbered (label : Label) : Label := ⟨label.place, label.origin.renumbered h⟩

/-- The tree with the numbers in its labels changed. -/
abbrev Command.renumbered (command : Command) : Command := command.relabelled (Label.renumbered h)

/-- What a name stands for, with the numbers changed in all commands that are kept for it. -/
def Binding.renumbered : Binding → Binding
  | .evaluated text => .evaluated text
  | .deferred command previous =>
    .deferred (command.renumbered h) (match previous with
      | some binding => some binding.renumbered
      | none => none)

/-- The entries with their bindings renumbered. -/
def Frame.renumbered (frame : Frame) : Frame :=
  frame.map (Prod.map id (Option.map (Binding.renumbered h)))

/-- The scope with all its frames renumbered. -/
def Scope.renumbered (scope : Scope) : Scope :=
  ⟨Frame.renumbered h scope.own, scope.parents.map (Frame.renumbered h)⟩

/-- The same positions, of the renumbered nodes. -/
def Counters.renumbered (counters : Counters) : Counters :=
  ⟨counters.positions.map (Prod.map (Label.renumbered h) id)⟩

/-- The table under its other number. -/
def CandidateTable.renumbered (table : CandidateTable) : CandidateTable :=
  ⟨h table.number, table.trees.map (Prod.map id (Command.renumbered h))⟩

/-- The session with all that was read renumbered, and what will be read too. -/
def Session.renumbered (s : Session) : Session :=
  { s with
    counters := s.counters.renumbered h
    candidates := s.candidates.renumbered h
    numbered := h s.numbered }

/-- The state of a walk under other numbers. -/
def Walking.renumbered (w : Walking) : Walking := ⟨w.scope.renumbered h, w.session.renumbered h⟩

/-- The branch with the scope that it leaves renumbered. -/
def Branch.renumbered (branch : Branch) : Branch := ⟨branch.text, branch.scope.renumbered h⟩

end Renumbered

variable {h : Renumbering}

/-! ### Identities stay apart -/

/-- Different origins stay different. -/
theorem Origin.renumbered_injective : Function.Injective (Origin.renumbered h) := by
  intro a b hsame
  cases a <;> cases b <;> simp_all [Origin.renumbered]

/-- Different labels stay different. -/
theorem Label.renumbered_injective : Function.Injective (Label.renumbered h) := by
  intro a b hsame
  obtain ⟨hplace, horigin⟩ := Label.mk.inj hsame
  cases a
  cases b
  cases hplace
  cases Origin.renumbered_injective horigin
  rfl

/-- An entry is found under the other key exactly if it was found under its own. -/
theorem lookup_map_map {κ μ α β : Type} [BEq κ] [LawfulBEq κ] [BEq μ] [LawfulBEq μ] {key : κ → μ}
    (hkey : Function.Injective key) (f : α → β) (entries : List (κ × α)) (k : κ) :
    (entries.map (Prod.map key f)).lookup (key k) = (entries.lookup k).map f := by
  induction entries with
  | nil => rfl
  | cons entry entries ih =>
    rw [List.map_cons, List.lookup_cons, List.lookup_cons, Prod.map]
    by_cases hsame : k = entry.1
    · rw [hsame, beq_self_eq_true, beq_self_eq_true]
      rfl
    · rw [beq_false_of_ne hsame, beq_false_of_ne fun heq => hsame (hkey heq)]
      exact ih

/-- Each node stands where it stood. -/
theorem Counters.position_renumbered (counters : Counters) (label : Label) :
    (counters.renumbered h).position (label.renumbered h) = counters.position label := by
  rw [Counters.position, Counters.renumbered,
    lookup_map_map Label.renumbered_injective, Option.map_id]
  rfl

/-- Setting a position of a renumbered label is setting that of the label. -/
theorem Counters.setIn_renumbered (label : Label) (position : Nat)
    (positions : List (Label × Nat)) :
    setIn (label.renumbered h) position (positions.map (Prod.map (Label.renumbered h) id)) =
      (setIn label position positions).map (Prod.map (Label.renumbered h) id) := by
  induction positions with
  | nil => rfl
  | cons entry positions ih =>
    obtain ⟨other, place⟩ := entry
    rw [List.map_cons, Prod.map, setIn, setIn]
    by_cases hsame : other = label
    · rw [if_pos hsame, if_pos (congrArg (Label.renumbered h) hsame)]
      rfl
    · rw [if_neg hsame, if_neg fun heq => hsame (Label.renumbered_injective heq), ih]
      rfl

/-- A turn moves the renumbered node as it moves the node. -/
theorem Counters.next_renumbered (counters : Counters) (label : Label) (size : Nat) :
    (counters.renumbered h).next (label.renumbered h) size =
      ((counters.next label size).1, (counters.next label size).2.renumbered h) := by
  unfold Counters.next
  split
  · rfl
  · dsimp only
    rw [position_renumbered, renumbered, renumbered, setIn_renumbered]

/-! ### Scopes -/

/-- A deferred binding is renumbered in its command and in what it replaced. -/
theorem Binding.renumbered_deferred (command : Command) (previous : Option Binding) :
    (Binding.deferred command previous).renumbered h =
      .deferred (command.renumbered h) (previous.map (Binding.renumbered h)) := by
  cases previous <;> rfl

/-- Looking through renumbered frames finds the renumbered binding. -/
theorem lookupIn_renumbered (name : Text) (frames : List Frame) :
    lookupIn name (frames.map (Frame.renumbered h)) =
      (lookupIn name frames).map (Binding.renumbered h) := by
  induction frames with
  | nil => rfl
  | cons frame frames ih =>
    have hframe : (Frame.renumbered h frame).lookup name =
        (frame.lookup name).map (Option.map (Binding.renumbered h)) :=
      lookup_map_map Function.injective_id _ frame name
    rw [List.map_cons, lookupIn, lookupIn, hframe]
    cases frame.lookup name with
    | none => exact ih
    | some binding => rfl

/-- So does looking through a renumbered scope. -/
theorem Scope.lookup_renumbered (scope : Scope) (name : Text) :
    (scope.renumbered h).lookup name = (scope.lookup name).map (Binding.renumbered h) :=
  lookupIn_renumbered name (scope.own :: scope.parents)

/-- Leaving a scope and renumbering can be exchanged. -/
theorem Scope.pop_renumbered (scope : Scope) :
    (scope.renumbered h).pop = scope.pop.renumbered h := by
  obtain ⟨own, parents⟩ := scope
  cases parents <;> rfl

/-- Inline variables are bound to renumbered commands. -/
theorem inlineFrame_renumbered (scope : Scope) (inlined : List (Text × Command)) :
    inlineFrame (scope.renumbered h) (inlined.map (Prod.map id (Command.renumbered h))) =
      Frame.renumbered h (inlineFrame scope inlined) := by
  rw [inlineFrame, inlineFrame, Frame.renumbered, List.filter_map, List.map_map, List.map_map]
  refine List.map_congr_left fun v _ => ?_
  simp only [Function.comp_apply, Prod.map, id, Scope.lookup_renumbered, Option.map_some,
    Binding.renumbered_deferred]

/-! ## 2. Walks -/

/-- From the renumbered state the other walk does what the walk does, and comes to what `f` makes
of its value. -/
def Walk.Renumbers {α β : Type} (h : Renumbering) (f : α → β) (walk : Walk α) (other : Walk β) :
    Prop :=
  ∀ w, other (w.renumbered h) = ((walk w).1.map f, (walk w).2.renumbered h)

namespace Walk.Renumbers

variable {α β γ δ : Type} {f : α → β} {g : γ → δ} {walk : Walk α} {other : Walk β}

/-- A value that is given at once. -/
theorem pure (a : α) : Renumbers h f (Pure.pure a) (Pure.pure (f a)) := fun _ => rfl

/-- Errors do not show numbers. -/
theorem fail (error : WalkError) : Renumbers h f (Walk.fail error) (Walk.fail error) := fun _ => rfl

/-- Steps one after another, if each is so. -/
theorem bind (hwalk : Renumbers h f walk other) {next : α → Walk γ} {next' : β → Walk δ}
    (hnext : ∀ a, Renumbers h g (next a) (next' (f a))) :
    Renumbers h g (walk >>= next) (other >>= next') := by
  intro w
  rw [Walk.bind_apply, Walk.bind_apply, hwalk w]
  generalize walk w = run
  obtain ⟨result, after⟩ := run
  cases result with
  | error error => rfl
  | ok a => exact hnext a after

/-- Looking a name up finds the renumbered binding. -/
theorem lookup (name : Text) :
    Renumbers h (Option.map (Binding.renumbered h)) (Walk.lookup name) (Walk.lookup name) := by
  intro w
  simp only [Walk.lookup, Walking.renumbered, Scope.lookup_renumbered, Except.map]

/-- Binding a name binds the renumbered binding. -/
theorem bindName (name : Text) (binding : Binding) :
    Renumbers h id (Walk.bindName name binding) (Walk.bindName name (binding.renumbered h)) :=
  fun _ => rfl

/-- What is done to the session, if it is so for all sessions. -/
theorem ofSession {action : Session → Except WalkError α × Session}
    {other : Session → Except WalkError β × Session}
    (haction : ∀ s, other (s.renumbered h) = ((action s).1.map f, (action s).2.renumbered h)) :
    Renumbers h f (Walk.ofSession action) (Walk.ofSession other) := by
  intro w
  simp only [Walk.ofSession, Walking.renumbered, haction]

/-- A walk in a frame of its own. -/
theorem within (hwalk : Renumbers h f walk other) (frame : Frame) :
    Renumbers h f (Walk.within frame walk) (Walk.within (Frame.renumbered h frame) other) := by
  intro w
  have hinside := hwalk { w with scope := w.scope.push frame }
  simp only [Walk.within]
  have hstate : ({ w.renumbered h with
      scope := (w.renumbered h).scope.push (Frame.renumbered h frame) } : Walking) =
        Walking.renumbered h { w with scope := w.scope.push frame } := rfl
  rw [hstate, hinside]
  generalize walk { w with scope := w.scope.push frame } = run
  obtain ⟨result, after⟩ := run
  simp only [Walking.renumbered, Scope.pop_renumbered]

/-- A draw does not look at numbers. -/
theorem draw (env : Environment) : Renumbers h id (Walk.draw env) (Walk.draw env) := fun _ => rfl

/-- Neither does a whole number that is drawn. -/
theorem drawInt (env : Environment) (least most : Nat) :
    Renumbers h id (Walk.drawInt env least most) (Walk.drawInt env least most) := fun _ => rfl

/-- Nor an index by weights. -/
theorem drawWeighted (env : Environment) (weights : List Rat) :
    Renumbers h id (Walk.drawWeighted env weights) (Walk.drawWeighted env weights) := fun _ => rfl

/-- A rotation goes on from the position of the renumbered label, which is the same. -/
theorem turn (label : Label) (size : Nat) :
    Renumbers h id (Walk.turn label size) (Walk.turn (label.renumbered h) size) := by
  intro w
  simp only [Walk.turn, Walking.renumbered, Session.renumbered, Counters.next_renumbered,
    Except.map, id]

/-- Picking by an index finds the member that the other one becomes. -/
theorem pick (f : α → β) (members : List α) (index : Option Nat) :
    Renumbers h f (Walk.pick members index) (Walk.pick (members.map f) index) := by
  intro w
  have hmember : (index.bind ((members.map f)[·]?)) = (index.bind (members[·]?)).map f := by
    cases index with
    | none => rfl
    | some index => exact List.getElem?_map
  rw [Walk.pick, Walk.pick, hmember]
  cases index.bind (members[·]?) <;> rfl

/-- Both sides of a decision that does not look at numbers. -/
theorem ite {p : Prop} [Decidable p] {walk walk' : Walk α} {other other' : Walk β}
    (hyes : Renumbers h f walk other) (hno : Renumbers h f walk' other') :
    Renumbers h f (if p then walk else walk') (if p then other else other') := by
  split
  · exact hyes
  · exact hno

end Walk.Renumbers

/-! ### Wildcard values -/

namespace Session

variable {g : Grammar} (hopens : g.Opens)
include hopens

/-- A value has the renumbered tree, whether it was read before or is read now. -/
theorem parseCandidate_renumbered (value : Text) (s : Session) :
    parseCandidate g value (s.renumbered h) =
      ((parseCandidate g value s).1.map (Command.renumbered h),
        (parseCandidate g value s).2.renumbered h) := by
  -- the table keeps trees by their text; renumbering touches the trees and not the texts
  have hlookup : (s.renumbered h).candidates.trees.lookup value =
      (s.candidates.trees.lookup value).map (Command.renumbered h) :=
    lookup_map_map Function.injective_id _ s.candidates.trees value
  have hparse : g.parse (.candidate (s.renumbered h).candidates.number value) value =
      (g.parse (.candidate s.candidates.number value) value).map (Command.renumbered h) :=
    Template.parse_relabelled hopens (fun _ => rfl) value
  rw [parseCandidate, parseCandidate, hlookup, hparse]
  -- a text that was read before gives its kept tree; a new one is read and kept behind the others
  cases s.candidates.trees.lookup value with
  | some tree => rfl
  | none =>
    cases g.parse (.candidate s.candidates.number value) value with
    | error error => rfl
    | ok tree =>
      simp only [Option.map_none, Except.map, renumbered, CandidateTable.renumbered,
        List.map_append, List.map_cons, List.map_nil, Prod.map, id]

/-- Several values, by induction on their list; those before an error are kept. -/
theorem parseCandidates_renumbered (values : List Text) (s : Session) :
    parseCandidates g values (s.renumbered h) =
      ((parseCandidates g values s).1.map (List.map (Command.renumbered h)),
        (parseCandidates g values s).2.renumbered h) := by
  induction values generalizing s with
  | nil => rfl
  | cons value values ih =>
    rw [parseCandidates, parseCandidates, parseCandidate_renumbered hopens]
    generalize parseCandidate g value s = first
    obtain ⟨result, between⟩ := first
    cases result with
    | error error => rfl
    | ok tree =>
      simp only [Except.map]
      rw [ih between]
      generalize parseCandidates g values between = rest
      obtain ⟨result, after⟩ := rest
      cases result <;> rfl

end Session

section Rendering

variable {env : Environment} (hopens : env.grammar.Opens)
include hopens

/-- The candidates of a wildcard are those of the renumbered table. -/
theorem Session.wildcardCandidates_renumbered (name : Text) (method : Sampling) (s : Session) :
    wildcardCandidates env name method (s.renumbered h) =
      ((wildcardCandidates env name method s).1.map (List.map (Command.renumbered h)),
        (wildcardCandidates env name method s).2.renumbered h) := by
  unfold wildcardCandidates
  cases env.resolve name with
  | error error => rfl
  | ok values =>
    cases values with
    | nil =>
      dsimp only
      split
      · rfl
      · rfl
    | cons value values =>
      exact parseCandidates_renumbered hopens (value :: values) { s with asked := name :: s.asked }

end Rendering

/-! ### The rules of the nodes -/

/-- Rendering the renumbered tree in the renumbered state is rendering the tree. -/
def Renderer.Renumbers (h : Renumbering) (render : Renderer) : Prop :=
  ∀ command method ambient, Walk.Renumbers h id (render command method ambient)
    (render (command.renumbered h) method ambient)

namespace Renderer.Renumbers

variable {render : Renderer} (hrender : Renderer.Renumbers h render) {method : Sampling}
include hrender

/-- Nodes one after another, by induction on their list. -/
theorem sequence (children : List Command) (ambient : Text) :
    Walk.Renumbers h id (renderSequence render method children ambient)
      (renderSequence render method (children.map (Command.renumbered h)) ambient) := by
  induction children generalizing ambient with
  | nil => exact .pure []
  | cons child children ih =>
    rw [List.map_cons, renderSequence, renderSequence]
    exact (hrender child method ambient).bind fun first => (ih (ambient ++ first)).bind fun rest =>
      .pure (first ++ rest)

/-- Several values, by induction on their list. -/
theorem each (ambient : Text) (values : List Command) :
    Walk.Renumbers h id (renderEach render method ambient values)
      (renderEach render method ambient (values.map (Command.renumbered h))) := by
  induction values with
  | nil => exact .pure []
  | cons value values ih =>
    rw [List.map_cons, renderEach, renderEach]
    exact (hrender value method ambient).bind fun first => ih.bind fun rest => .pure (first :: rest)

/-- The weights of options stay when their values are renumbered. -/
theorem drawn (env : Environment) (options : List (Weighted Command)) (ambient : Text)
    (count : Nat) :
    Walk.Renumbers h id (renderDrawn env render options ambient count)
      (renderDrawn env render
        (options.map fun option => ⟨option.weight, option.value.renumbered h⟩) ambient count) := by
  induction count with
  | zero => exact .pure []
  | succ count ih =>
    rw [renderDrawn, renderDrawn, List.map_map]
    refine (Walk.Renumbers.drawWeighted env _).bind fun index => ?_
    refine (Walk.Renumbers.pick _ options index).bind fun option => ?_
    exact (hrender option.value .random ambient).bind fun first => ih.bind fun rest =>
      .pure (first :: rest)

omit hrender in
/-- The values of chosen options are renumbered one by one. -/
theorem optionsAt_renumbered (options : List (Weighted Command)) (choice : List Nat) :
    optionsAt (options.map fun option => ⟨option.weight, option.value.renumbered h⟩) choice =
      (optionsAt options choice).map (Command.renumbered h) := by
  rw [optionsAt, optionsAt, List.map_filterMap]
  refine List.filterMap_congr fun index _ => ?_
  rw [List.getElem?_map]
  cases options[index]? <;> rfl

/-- A variant rotates or draws the same options. -/
theorem variant (env : Environment) (label : Label) (options : List (Weighted Command))
    (least most : Nat) (separator ambient : Text) :
    Walk.Renumbers h id (renderVariant env render label options least most separator method ambient)
      (renderVariant env render (label.renumbered h)
        (options.map fun option => ⟨option.weight, option.value.renumbered h⟩) least most separator
        method ambient) := by
  unfold renderVariant
  rw [List.map_map]
  refine .ite (.ite (.pure []) ?_) (.ite (.pure []) ?_)
  · refine (Walk.Renumbers.drawInt env least most).bind fun count => ?_
    exact (hrender.drawn env options ambient count.loopCount).bind fun parts => .pure _
  · refine (Walk.Renumbers.turn label _).bind fun place => ?_
    have hpick := Walk.Renumbers.pick (h := h) id
      (variantChoices (options.map (·.weight)) least most) (some place)
    rw [List.map_id] at hpick
    refine hpick.bind fun choice => ?_
    rw [optionsAt_renumbered]
    exact (hrender.each ambient (optionsAt options choice)).bind fun parts => .pure _

omit hrender in

/-- The index of a candidate is the same. -/
theorem candidateIndex (env : Environment) (label : Label) (size : Nat) :
    Walk.Renumbers h id (PromptTemplate.candidateIndex env label method size)
      (PromptTemplate.candidateIndex env (label.renumbered h) method size) :=
  .ite ((Walk.Renumbers.draw env).bind fun _ => .pure _)
    ((Walk.Renumbers.turn label size).bind fun place => .pure (some place))

/-- A wildcard has the same name, and picks the candidate that the other one becomes. -/
theorem wildcard {env : Environment} (hopens : env.grammar.Opens) (label : Label)
    (name : WildcardName Command) (inlined : List (Text × Command)) (sampling : Option Sampling)
    (ambient : Text) :
    Walk.Renumbers h id (renderWildcard env render label name inlined sampling method ambient)
      (renderWildcard env render (label.renumbered h)
        (Command.relabelledName (Label.renumbered h) name)
        (inlined.map (Prod.map id (Command.renumbered h))) sampling method ambient) := by
  have hname : Walk.Renumbers h id (renderName render method ambient name)
      (renderName render method ambient (Command.relabelledName (Label.renumbered h) name)) := by
    cases name with
    | fixed name => exact .pure name
    | rendered command => exact hrender command method ambient
  refine hname.bind fun text => ?_
  refine (Walk.Renumbers.ofSession
    -- how many candidates there are is not changed, so the same index is drawn
    (Session.wildcardCandidates_renumbered hopens text (sampling.getD method))).bind fun found => ?_
  rw [List.isEmpty_map, List.length_map]
  refine .ite (.pure []) ?_
  refine (candidateIndex env label found.length).bind fun index => ?_
  refine (Walk.Renumbers.pick _ found index).bind fun candidate => ?_
  intro w
  have hwithin := Walk.Renumbers.within
    (hrender candidate (sampling.getD method).walked ambient) (inlineFrame w.scope inlined) w
  rw [← inlineFrame_renumbered] at hwithin
  exact hwithin

/-- A part with a chance is included in both or in none. -/
theorem probability (env : Environment) (label : Label) (chance : Rat) (value : Command)
    (ambient : Text) :
    Walk.Renumbers h id (renderProbability env render label chance value method ambient)
      (renderProbability env render (label.renumbered h) chance (value.renumbered h) method
        ambient) := by
  have hincluded : Walk.Renumbers h id (isIncluded env label chance method)
      (isIncluded env (label.renumbered h) chance method) := by
    refine .ite ((Walk.Renumbers.draw env).bind fun drawn => .pure _) ?_
    refine (Walk.Renumbers.turn label _).bind fun place => ?_
    have hpick := Walk.Renumbers.pick (h := h) id (probabilityChoices (.finite chance)) (some place)
    rwa [List.map_id] at hpick
  exact hincluded.bind fun included => .ite (hrender value method ambient) (.pure [])

/-- A deferred command renders among the renumbered bindings. -/
theorem binding (ambient name : Text) :
    Walk.Renumbers h id (renderBinding render method ambient name)
      (renderBinding render method ambient name) := by
  refine (Walk.Renumbers.lookup name).bind fun found => ?_
  rcases found with _ | (text | ⟨command, previous⟩)
  · exact .pure none
  · exact .pure (some text)
  · rw [Option.map_some, Binding.renumbered_deferred]
    exact (Walk.Renumbers.within (hrender command method ambient)
      (resolvingFrame name previous)).bind fun text => .pure (some text)

/-- A condition, by induction on its branches: guards look at texts alone. -/
theorem condition (ambient : Text) (otherwise : Command) (branches : List (Guarded Command)) :
    Walk.Renumbers h id (renderCondition render method ambient otherwise branches)
      (renderCondition render method ambient (otherwise.renumbered h)
        (branches.map fun branch => ⟨branch.guard, branch.value.renumbered h⟩)) := by
  induction branches with
  | nil => exact hrender otherwise method ambient
  | cons branch branches ih =>
    have htarget : Walk.Renumbers h id (renderTarget render method ambient branch.guard.key)
        (renderTarget render method ambient branch.guard.key) := by
      cases branch.guard.key with
      | none => exact .pure ambient
      | some key => exact (hrender.binding ambient key).bind fun text => .pure _
    exact htarget.bind fun target => .ite (hrender branch.value method ambient) ih

/-- Reading a variable finds the renumbered binding. -/
theorem access (ambient name : Text) (fallback : Option Command) :
    Walk.Renumbers h id (renderAccess render method ambient name fallback)
      (renderAccess render method ambient name (fallback.map (Command.renumbered h))) := by
  refine (hrender.binding ambient name).bind fun found => ?_
  cases found with
  | some text => exact .pure text
  | none =>
    cases fallback with
    | none => exact .fail _
    | some command => exact hrender command method ambient

/-- An assignment binds the renumbered value. -/
theorem assignment (ambient name : Text) (value : Command) (overwrite immediate : Bool) :
    Walk.Renumbers h id (renderAssignment render method ambient name value overwrite immediate)
      (renderAssignment render method ambient name (value.renumbered h) overwrite immediate) := by
  refine (Walk.Renumbers.lookup name).bind fun earlier => ?_
  rw [Option.isSome_map, ← Binding.renumbered_deferred]
  refine .ite (.pure []) (.ite ?_ ?_)
  · exact (hrender value method ambient).bind fun text =>
      (Walk.Renumbers.bindName name (.evaluated text)).bind fun _ => .pure []
  · exact (Walk.Renumbers.bindName name (.deferred value earlier)).bind fun _ => .pure []

/-- One node, given that its parts do. -/
theorem node {env : Environment} (hopens : env.grammar.Opens) :
    Renderer.Renumbers h (renderNode env render) := by
  intro command method ambient
  cases command with
  | literal text => exact .pure text
  | comment text => exact .pure []
  | sequence children =>
    rw [Command.renumbered, Command.relabelled, Command.relabelledAll_eq]
    exact hrender.sequence children ambient
  | variant label options least most separator sampling =>
    rw [Command.renumbered, Command.relabelled, Command.relabelledOptions_eq]
    exact hrender.variant env label options least most separator ambient
  | wildcard label name inlined sampling =>
    rw [Command.renumbered, Command.relabelled, Command.relabelledVariables_eq]
    exact hrender.wildcard hopens label name inlined sampling ambient
  | wrap wrapper inner =>
    exact (hrender inner method ambient).bind fun inner =>
      (hrender wrapper method ambient).bind fun wrapper => .pure (applyWrap wrapper inner)
  | probability label chance value sampling =>
    exact hrender.probability env label chance value ambient
  | condition branches otherwise =>
    rw [Command.renumbered, Command.relabelled, Command.relabelledBranches_eq]
    exact hrender.condition ambient otherwise branches
  | access name fallback =>
    rw [Command.renumbered, Command.relabelled_access]
    exact hrender.access ambient name fallback
  | assignment name value overwrite immediate =>
    exact hrender.assignment ambient name value overwrite immediate

end Renderer.Renumbers

/-- **Walks do not depend on numbers**, at whatever depth. -/
theorem renderWithin_renumbers {env : Environment} (hopens : env.grammar.Opens) (depth : Nat) :
    Renderer.Renumbers h (renderWithin env depth) := by
  induction depth with
  | zero => exact fun _ _ _ => .fail _
  | succ depth ih => exact ih.node hopens

end PromptTemplate
