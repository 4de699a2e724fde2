/-
`Ending.lean` -- variables never make rendering go on for ever.

A tree without wildcards renders within a depth that is known beforehand: its own cost and
that of all bindings in reach (`Command.cost`, `Scope.cost`), however these refer to
themselves or to each other, and whatever is bound on the way. Both kinds of rendering are
compared with nothing but the claim that they end (`Walk.finishing`, `Branches.ending`), so
the rules of the nodes are those of every comparison; the walks come first, because a node
that is forced to draw or to rotate is rendered by one.
-/
import PromptTemplate.Proofs.Command.Weights
import PromptTemplate.Proofs.Expansion.Choosing
import PromptTemplate.Proofs.Expansion.Measure

set_option autoImplicit false

namespace PromptTemplate

/-! ## 1. What can be afforded -/

/-- A node as it can be made that asks for no wildcard: its weights are numbers of the grid
and not negative. -/
def Command.SelfContained : Command → Prop
  | .wildcard _ _ _ _ => False
  | .variant _ options _ _ _ _ => ∀ option ∈ options, OnGrid option.weight
  | _ => True

/-- The constructor of variants makes such nodes, if it is given numbers of the grid. -/
theorem Command.makeVariant_selfContained {label : Label}
    {options : List (Option Number × Command)} {settings : VariantSettings} {command : Command}
    (hgrid : ∀ option ∈ options, ∀ v, option.1 = some (.finite v) → Binary64.round v = .finite v)
    (h : makeVariant label options settings = .ok command) : command.SelfContained := by
  have hweighed := makeVariant_weighed
    (fun option hmem n hn v hv => hgrid option hmem v (hv ▸ hn)) h
  obtain ⟨checked, least, most, -, rfl⟩ := exists_of_makeVariant h
  exact hweighed

/-- The commands can be rendered in the scope, one after another, at this cost. -/
structure Affords (limit : Nat) (commands : List Command) (scope : Scope) : Prop where
  nodes : ∀ command ∈ commands, command.Everywhere Command.SelfContained
  bindings : scope.Everywhere Command.SelfContained
  cost_le : Command.totalCost commands + scope.cost ≤ limit

/-- What the scope has gained in cost is paid for by the commands that were rendered. -/
structure PaidBy (commands : List Command) (before after : Scope) : Prop where
  bindings : after.Everywhere Command.SelfContained
  cost_le : after.cost ≤ before.cost + Command.totalCost commands

namespace Affords

variable {limit : Nat} {command : Command} {commands others : List Command} {scope after : Scope}

/-- Fewer commands can be afforded, too. -/
theorem sub (h : Affords limit commands scope) (hsub : others.Subperm commands) :
    Affords limit others scope := by
  have hcost := Command.totalCost_le_of_subperm hsub
  have hlimit := h.cost_le
  exact ⟨fun command hmem => h.nodes command (hsub.subset hmem), h.bindings, by omega⟩

/-- What is left after the first command was paid for can be afforded. -/
theorem tail (h : Affords limit (command :: commands) scope)
    (hfirst : PaidBy [command] scope after) :
    Affords limit commands after := by
  have hlimit := h.cost_le
  have hpaid := hfirst.cost_le
  rw [Command.totalCost_cons] at hlimit
  rw [Command.totalCost_singleton] at hpaid
  -- the first command spends at most its own cost, so what is left covers the others
  exact ⟨fun command hmem => h.nodes command (List.mem_cons_of_mem _ hmem), hfirst.bindings,
    by omega⟩

/-- The command of a binding is no longer in reach where it renders. -/
theorem binding (h : Affords limit commands scope) {name : Text} {previous : Option Binding}
    (hlookup : scope.lookup name = some (.deferred command previous)) :
    Affords limit [command] (scope.push (resolvingFrame name previous)) := by
  obtain ⟨hcommand, hinner⟩ :=
    (Contract.everywhere Command.SelfContained).binding ⟨h.nodes, h.bindings⟩ trivial hlookup
  have hlimit := h.cost_le
  refine ⟨hcommand, hinner, ?_⟩
  rw [Command.totalCost_singleton, Scope.cost_resolving hlookup]
  omega

/-- The parts of a node can be afforded with less than the node. -/
theorem parts (h : Affords (limit + 1) [command] scope) : Affords limit command.parts scope := by
  have hlimit := h.cost_le
  have hparts := command.totalCost_parts_lt
  rw [Command.totalCost_singleton] at hlimit
  exact ⟨fun part => (h.nodes command (List.mem_singleton_self _)).of_part, h.bindings, by omega⟩

/-- Nothing can be rendered for nothing. -/
theorem not_zero (h : Affords 0 [command] scope) : False := by
  have hlimit := h.cost_le
  have hparts := command.totalCost_parts_lt
  rw [Command.totalCost_singleton] at hlimit
  omega

end Affords

namespace PaidBy

variable {command value : Command} {commands : List Command} {before between after : Scope}
  {name : Text} {overwrite immediate : Bool}

/-- Commands one after another pay for what each of them brings in. -/
theorem cons (hfirst : PaidBy [command] before between) (hrest : PaidBy commands between after) :
    PaidBy (command :: commands) before after := by
  have hpaid := hfirst.cost_le
  have hpaid' := hrest.cost_le
  rw [Command.totalCost_singleton] at hpaid
  refine ⟨hrest.bindings, ?_⟩
  rw [Command.totalCost_cons]
  omega

/-- A node pays for what its parts bring in, if none of them is rendered more often than it counts.
-/
theorem node (h : PaidBy commands before after) (hsub : commands.Subperm command.parts) :
    PaidBy [command] before after := by
  have hpaid := h.cost_le
  have hcost := Command.totalCost_le_of_subperm hsub
  have hparts := command.totalCost_parts_lt
  refine ⟨h.bindings, ?_⟩
  rw [Command.totalCost_singleton]
  omega

/-- Binding a name to a text takes the cost of its binding out of the scope. -/
theorem evaluate (h : PaidBy [value] before after) (text : Text) :
    PaidBy [.assignment name value overwrite immediate] before
      (after.bind name (.evaluated text)) := by
  obtain ⟨hscope, hpaid⟩ :=
    h.node (List.Subperm.refl (Command.assignment name value overwrite immediate).parts)
  have hbind := after.cost_bind name (.evaluated text)
  rw [Binding.cost] at hbind
  exact ⟨hscope.bind (.evaluated text) name, by omega⟩

/-- Binding a name to a command moves the command from the tree into the scope. -/
theorem defer {limit : Nat} (h : Affords limit [value] before) :
    PaidBy [.assignment name value overwrite immediate] before
      (before.bind name (.deferred value (before.lookup name))) := by
  have hbind := before.cost_bind name (.deferred value (before.lookup name))
  have hparts := (Command.assignment name value overwrite immediate).totalCost_parts_lt
  rw [Binding.cost_deferred] at hbind
  rw [Command.parts, Command.totalCost_singleton] at hparts
  have hbinding : (Binding.deferred value (before.lookup name)).Everywhere Command.SelfContained :=
    .deferred _ _ (h.nodes value (List.mem_singleton_self _)) fun binding => h.bindings _ binding
  -- the command is counted once less in the tree and once more in the scope
  refine ⟨h.bindings.bind hbinding name, ?_⟩
  rw [Command.totalCost_singleton]
  omega

end PaidBy

/-- What is rendered costs no more than so much, the bindings in reach included. -/
def Contract.affordable (limit : Nat) : Contract where
  admits := Affords limit
  reads _ := True
  defers _ value := Affords limit [value]
  settles := PaidBy
  sub := Affords.sub
  tail := Affords.tail
  binding h _ hlookup := h.binding hlookup
  refl h := ⟨h.bindings, Nat.le_add_right _ _⟩
  cons := PaidBy.cons
  node := PaidBy.node
  evaluate h := h.evaluate _
  defer := PaidBy.defer

/-- A node whose parts can be afforded may do all that it does. -/
theorem Contract.affordable_enters {limit : Nat} {command : Command} {scope : Scope}
    (h : (affordable limit).admits command.parts scope) : (affordable limit).Enters command scope :=
  enters_of_parts (fun _ => trivial) (fun _ _ _ h => h) h

/-! ## 2. Walks that finish -/

/-- The action comes to a value of this kind, and leaves the scope as it is. -/
def Walk.Selects {α : Type} (p : α → Prop) (selection : Walk α) : Prop :=
  ∀ w, ∃ a after, selection w = (.ok a, after) ∧ p a ∧ after.scope = w.scope

/-- From the scope the walk ends: with a value and a settled scope inside of the same others,
or because a variable is not bound. -/
def Walk.Finishes {α : Type} (settled : Scope → Prop) (scope : Scope) (walk : Walk α) : Prop :=
  ∀ w : Walking, w.scope = scope →
    (∃ a after, walk w = (.ok a, after) ∧ settled after.scope ∧
      after.scope.parents = scope.parents) ∨
    ∃ name after, walk w = (.error (.unknownVariable name), after)

namespace Walk

variable {α β : Type}

/-- A selection goes on by another one. -/
theorem Selects.bind {p : α → Prop} {q : β → Prop} {selection : Walk α} {next : α → Walk β}
    (h : selection.Selects p) (hnext : ∀ a, p a → (next a).Selects q) :
    (selection >>= next).Selects q := by
  intro w
  obtain ⟨a, between, hrun, ha, hscope⟩ := h w
  obtain ⟨b, after, hrun', hb, hscope'⟩ := hnext a ha between
  exact ⟨b, after, (bind_ok hrun).trans hrun', hb, hscope'.trans hscope⟩

/-- A rotation comes to a number below its size. -/
theorem selects_turn (label : Label) {size : Nat} (hsize : 0 < size) :
    (turn label size).Selects (· < size) := by
  intro w
  obtain ⟨place, counters, hplace, hturn⟩ := turn_apply label hsize w
  exact ⟨place, _, hturn, hplace, rfl⟩

/-- A place that there is picks a member. -/
theorem selects_pick {members : List α} {place : Nat} (hplace : place < members.length) :
    (pick members (some place)).Selects (· ∈ members) :=
  fun w => ⟨members[place], w, pick_apply hplace w, List.getElem_mem hplace, rfl⟩

/-- The member whose turn it is. -/
theorem selects_turn_pick (label : Label) {members : List α} (hmembers : members ≠ []) :
    (turn label members.length >>= fun place => pick members (some place)).Selects (· ∈ members) :=
  (selects_turn label (List.length_pos_iff.2 hmembers)).bind fun _ => selects_pick

namespace Finishes

variable {settled between : Scope → Prop} {scope : Scope} {walk : Walk α}

/-- A walk that finishes in such a scope finishes in one of a weaker kind. -/
theorem mono (h : walk.Finishes between scope) (hsettled : ∀ after, between after → settled after) :
    walk.Finishes settled scope := by
  intro w hw
  rcases h w hw with ⟨a, after, hrun, hafter, hparents⟩ | hfail
  · exact .inl ⟨a, after, hrun, hsettled _ hafter, hparents⟩
  · exact .inr hfail

/-- A value that is given at once. -/
theorem pure (hsettled : settled scope) (a : α) :
    (Pure.pure a : Walk α).Finishes settled scope := by
  rintro w rfl
  exact .inl ⟨a, w, rfl, hsettled, rfl⟩

/-- Steps one after another, if each finishes. -/
theorem bind (h : walk.Finishes between scope) {next : α → Walk β}
    (hnext : ∀ a after, between after → (next a).Finishes settled after) :
    (walk >>= next).Finishes settled scope := by
  intro w hw
  -- a variable that is not bound ends the walk; otherwise the next step begins where this ended
  rcases h w hw with ⟨a, after, hrun, hafter, hparents⟩ | ⟨name, after, hrun⟩
  · rw [bind_ok hrun]
    rcases hnext a after.scope hafter after rfl with ⟨b, last, hrun', hlast, hparents'⟩ | hfail
    · exact .inl ⟨b, last, hrun', hlast, hparents'.trans hparents⟩
    · exact .inr hfail
  · exact .inr ⟨name, after, by rw [bind_apply, hrun]⟩

/-- A walk that begins with a selection. -/
theorem select {p : α → Prop} {selection : Walk α} (h : selection.Selects p) {next : α → Walk β}
    (hnext : ∀ a, p a → (next a).Finishes settled scope) :
    (selection >>= next).Finishes settled scope := by
  intro w hw
  obtain ⟨a, after, hrun, ha, hscope⟩ := h w
  rw [bind_ok hrun]
  exact hnext a ha after (hscope.trans hw)

/-- A walk in a frame of its own leaves the scope around it. -/
theorem within {frame : Frame} (h : walk.Finishes between (scope.push frame))
    (hsettled : settled scope) :
    (Walk.within frame walk).Finishes settled scope := by
  rintro w rfl
  rcases h { w with scope := w.scope.push frame } rfl with
    ⟨a, after, hrun, -, hparents⟩ | ⟨name, after, hrun⟩
  · -- the frames below are as they were, so leaving the frame gives back the scope
    have hpop : after.scope.pop = w.scope := Scope.pop_of_parents_push hparents
    refine .inl ⟨a, { after with scope := w.scope }, ?_, hsettled, rfl⟩
    simp only [Walk.within, hrun, hpop]
  · exact .inr ⟨name, { after with scope := after.scope.pop }, by rw [Walk.within, hrun]⟩

end Finishes

/-- Walks compared with nothing: they finish. -/
def finishing : Comparison Unit where
  holds settled scope _ walk := (walk ()).Finishes settled scope
  mono h hsettled := h.mono hsettled
  congr h hsame w hw := by
    rw [hsame () w (hw ▸ .refl _)]
    exact h w hw
  pure hsettled text := .pure hsettled text
  bindName hsettled := by
    rintro w rfl
    exact .inl ⟨[], _, rfl, hsettled, rfl⟩
  unknown name w _ := .inr ⟨name, w, rfl⟩
  bind h hnext := h.bind fun text after hafter => hnext ⟨text, after⟩ hafter
  within h hsettled := h.within hsettled

end Walk

/-! ### Nodes that choose -/

section Choosing

open Walk

variable {env : Environment} (hround : env.round = Binary64.round) (hsource : env.source.InUnit)

include hround hsource in

/-- A whole number that is drawn lets a loop run no more often than its bounds say. -/
theorem selects_drawInt (least most : Nat) :
    (drawInt env least most).Selects (·.loopCount ≤ mostDrawn least most) := by
  intro w
  refine ⟨_, _, rfl, ?_, rfl⟩
  rw [hround]
  exact loopCount_randomInt_le hsource w.session.drawn least most

include hround in
/-- An option by its weight. -/
theorem selects_option {options : List (Weighted Command)}
    (hweights : ∀ option ∈ options, OnGrid option.weight)
    (hpositive : ∃ weight ∈ options.map (·.weight), 0 < weight) :
    (drawWeighted env (options.map (·.weight)) >>= pick options).Selects (· ∈ options) := by
  intro w
  obtain ⟨index, hindex, hdraw⟩ := weightedIndex_lt (List.forall_mem_map.2 hweights) hpositive
    env.source w.session.drawn
  rw [List.length_map] at hindex
  have hdrawn : drawWeighted env (options.map (·.weight)) w = (.ok (some index),
      { w with session := { w.session with drawn := w.session.drawn + 1 } }) := by
    rw [drawWeighted, hround, hdraw]
  exact ⟨options[index], _, (bind_ok hdrawn).trans (pick_apply hindex _), List.getElem_mem hindex,
    rfl⟩

/-- Whether a part is included is always decided. -/
theorem selects_isIncluded (label : Label) (chance : Rat) (method : Sampling) :
    (isIncluded env label chance method).Selects fun _ => True := by
  unfold isIncluded
  split
  · exact fun w => ⟨_, _, rfl, trivial, rfl⟩
  · refine fun w => ?_
    obtain ⟨included, after, hrun, -, hscope⟩ :=
      selects_turn_pick label (probabilityChoices_ne_nil chance) w
    exact ⟨included, after, hrun, trivial, hscope⟩

variable {limit : Nat} {enumerate : Enumerator} {render : Renderer} {method : Sampling}
  {scope : Scope} {options : List (Weighted Command)} {ambient : Text}

include hround in
/-- Options drawn one after another: each draw pays for one more rendering of any of them. -/
theorem renderDrawn_finishes
    (hsound : finishing.Sound (.affordable limit) enumerate (fun _ => render) .random)
    (hoptions : ∀ option ∈ options, option.value.Everywhere Command.SelfContained)
    (hweights : ∀ option ∈ options, OnGrid option.weight)
    (hpositive : ∃ weight ∈ options.map (·.weight), 0 < weight) (count : Nat)
    (hscope : scope.Everywhere Command.SelfContained)
    (hcost : count * Command.totalCost (options.map (·.value)) + scope.cost ≤ limit) :
    (renderDrawn env render options ambient count).Finishes (fun after =>
      after.Everywhere Command.SelfContained ∧
        after.cost ≤ scope.cost + count * Command.totalCost (options.map (·.value))) scope := by
  induction count generalizing scope with
  | zero => exact .pure ⟨hscope, Nat.le_add_right _ _⟩ []
  | succ count ih =>
    -- every draw may take any option, so each is charged as if all of them were rendered
    rw [Nat.succ_mul] at hcost ⊢
    rw [renderDrawn, ← Walk.bind_assoc]
    refine .select (selects_option hround hweights hpositive) fun option hmem => ?_
    have honly : Command.totalCost [option.value] ≤ Command.totalCost (options.map (·.value)) :=
      Command.totalCost_le_of_subperm (List.singleton_subperm_iff.2 (List.mem_map_of_mem hmem))
    have hvalue := hsound option.value scope ambient
      ⟨List.forall_mem_singleton.2 (hoptions option hmem), hscope, by omega⟩
    refine Walk.Finishes.bind hvalue fun first after hafter => ?_
    -- what the first option bound was paid for by its own rendering
    obtain ⟨hafter, hgained⟩ := hafter
    refine Walk.Finishes.bind (ih hafter (by omega)) fun rest last hlast => ?_
    exact .pure ⟨hlast.1, by omega⟩ _

include hround hsource in
/-- A variant whose options are drawn: however many there are to draw, they are paid for. -/
theorem renderVariant_finishes_random
    (hsound : finishing.Sound (.affordable limit) enumerate (fun _ => render) .random)
    {label : Label} {least most : Nat} {separator : Text} {sampling : Option Sampling}
    (hadmits : Affords (limit + 1) [.variant label options least most separator sampling] scope) :
    (renderVariant env render label options least most separator .random ambient).Finishes
      (PaidBy [.variant label options least most separator sampling] scope) scope := by
  have hcost := hadmits.cost_le
  rw [Command.totalCost_singleton, Command.cost_variant] at hcost
  have hweights : ∀ option ∈ options, OnGrid option.weight :=
    (hadmits.nodes _ (List.mem_singleton_self _)).here
  have hoptions : ∀ option ∈ options, option.value.Everywhere Command.SelfContained :=
    fun option hmem => hadmits.parts.nodes _ (List.mem_map_of_mem hmem)
  unfold renderVariant
  rw [if_pos rfl]
  split
  · exact .pure ((Contract.affordable limit).settles_self hadmits.parts) []
  · next heligible =>
    refine .select (selects_drawInt hround hsource least most) fun count hcount => ?_
    -- how many are drawn shows only now, but never more than the cost of the variant counts
    have hpicks : count.loopCount * Command.totalCost (options.map (·.value)) ≤
        mostDrawn least most * Command.totalCost (options.map (·.value)) :=
      Nat.mul_le_mul_right _ hcount
    have hdrawn : (renderDrawn env render options ambient count.loopCount).Finishes _ scope :=
      renderDrawn_finishes hround hsound hoptions hweights
        (exists_pos_of_eligible_ne_nil (by simpa using heligible)) count.loopCount hadmits.bindings
        (by omega)
    refine hdrawn.bind fun parts after hafter => .pure ⟨hafter.1, ?_⟩ _
    have hpaid := hafter.2
    rw [Command.totalCost_singleton, Command.cost_variant]
    omega

include hround hsource in
/-- A variant: so many options drawn, or those of the choice whose turn it is. -/
theorem renderVariant_finishes
    (hsound : finishing.Sound (.affordable limit) enumerate (fun _ => render) method)
    {label : Label} {least most : Nat} {separator : Text} {sampling : Option Sampling}
    (hadmits : Affords (limit + 1) [.variant label options least most separator sampling] scope) :
    (renderVariant env render label options least most separator method ambient).Finishes
      (PaidBy [.variant label options least most separator sampling] scope) scope := by
  by_cases hrandom : method = .random
  · subst hrandom
    exact renderVariant_finishes_random hround hsource hsound hadmits
  · unfold renderVariant
    rw [if_neg hrandom]
    dsimp only
    split
    · exact .pure ((Contract.affordable limit).settles_self hadmits.parts) []
    · next hchoices =>
      rw [← Walk.bind_assoc]
      refine .select (selects_turn_pick label (by simpa using hchoices)) fun choice hmem => ?_
      -- a choice has each option at most once, so it renders no more than the parts paid for
      have hfits := (optionsAt_sublist hmem).subperm
      have hjoined := hsound.joined (hadmits.parts.sub hfits) separator ambient []
      exact Walk.Finishes.mono hjoined fun after hafter => PaidBy.node hafter hfits

/-- A part that is not always put in. -/
theorem renderProbability_finishes
    (hsound : finishing.Sound (.affordable limit) enumerate (fun _ => render) method)
    {label : Label} {chance : Rat} {value : Command} {sampling : Option Sampling}
    (hadmits : Affords limit [value] scope) :
    (renderProbability env render label chance value method ambient).Finishes
      (PaidBy [.probability label chance value sampling] scope) scope := by
  refine .select (selects_isIncluded label chance method) fun included _ => ?_
  cases included with
  | true =>
    exact Walk.Finishes.mono (hsound value scope ambient hadmits) fun after hafter =>
      (Contract.affordable limit).node hafter (List.Subperm.refl _)
  | false => exact .pure ((Contract.affordable limit).settles_self hadmits) []

/-- Rendering within a depth finishes if the depth pays for it, by whatever method. The
induction is on the depth: every step into a part or into a binding costs one. -/
theorem finishes_within (hround : env.round = Binary64.round) (hsource : env.source.InUnit)
    (depth : Nat) (method : Sampling) :
    finishing.Sound (.affordable depth) (enumerateWithin env .distinct depth)
      (fun _ => renderWithin env depth) method := by
  induction depth generalizing method with
  | zero =>
    intro command scope ambient hadmits
    exact (Affords.not_zero hadmits).elim
  | succ depth ih =>
    intro command scope ambient hadmits
    have hparts := Affords.parts hadmits
    refine (ih method).node (Contract.affordable_enters hparts) ambient fun hchooses => ?_
    -- a wildcard is no part of such a tree, and all other nodes are settled by what they may do
    cases command with
    | variant label options least most separator sampling =>
      exact renderVariant_finishes hround hsource (ih _) hadmits
    | wildcard label name inlined sampling =>
      exact (hadmits.nodes _ (List.mem_singleton_self _)).here.elim
    | probability label chance value sampling => exact renderProbability_finishes (ih _) hparts
    | _ => exact absurd rfl hchooses

end Choosing

/-! ## 3. Branches that end -/

/-- However the run is resumed, it comes to its end or to a variable that is not bound, and
every branch on the way leaves a settled scope. -/
def Run.Ends (settled : Scope → Prop) : Run → Prop
  | .done _ => True
  | .fail error _ => ∃ name, error = .unknownVariable name
  | .yield branch _ rest => settled branch.scope ∧ ∀ s, (rest s).Ends settled

/-- The branches end in whatever session they run. -/
def Branches.Ends (settled : Scope → Prop) (branches : Branches) : Prop :=
  ∀ s, (branches s).Ends settled

namespace Run.Ends

variable {settled between : Scope → Prop} {run : Run}

/-- Branches that settle so settle under a weaker condition. -/
theorem mono (h : run.Ends between) (hsettled : ∀ after, between after → settled after) :
    run.Ends settled := by
  induction run with
  | done s => trivial
  | fail error s => exact h
  | yield branch s rest ih => exact ⟨hsettled _ h.1, fun s => ih s (h.2 s)⟩

/-- A run that goes on with branches that end, ends. -/
theorem append (h : run.Ends settled) {next : Branches} (hnext : next.Ends settled) :
    (run.append next).Ends settled := by
  induction run with
  | done s => exact hnext s
  | fail error s => exact h
  | yield branch s rest ih => exact ⟨h.1, fun s => ih s (h.2 s)⟩

/-- So does a run whose every branch leads to branches that end. -/
theorem bind (h : run.Ends between) {f : Branch → Branches}
    (hf : ∀ branch, between branch.scope → (f branch).Ends settled) :
    (run.bind f).Ends settled := by
  induction run with
  | done s => trivial
  | fail error s => exact h
  | yield branch s rest ih => exact (hf branch h.1 s).append fun s => ih s (h.2 s)

/-- All branches of such a run can be taken. -/
theorem take_none (h : run.Ends settled) :
    ∃ branches after, run.take none = (branches, .exhausted, after) ∨
      ∃ name, run.take none = (branches, .failed (.unknownVariable name), after) := by
  induction run with
  | done s => exact ⟨[], s, .inl rfl⟩
  | fail error s =>
    obtain ⟨name, rfl⟩ := h
    exact ⟨[], s, .inr ⟨name, rfl⟩⟩
  | yield branch s rest ih =>
    -- a branch that is taken resumes the rest, which ends from whatever session it is given
    obtain ⟨branches, after, hrest⟩ := ih s (h.2 s)
    refine ⟨branch :: branches, after, ?_⟩
    simp only [Run.take, Option.map_none, reduceCtorEq, if_false]
    rcases hrest with hrest | ⟨name, hrest⟩
    · exact .inl (by rw [hrest])
    · exact .inr ⟨name, by rw [hrest]⟩

end Run.Ends

namespace Branches

variable {settled between : Scope → Prop} {scope : Scope} {branches : Branches}

/-- One branch. -/
theorem Ends.single {branch : Branch} (h : settled branch.scope) : (single branch).Ends settled :=
  fun _ => ⟨h, fun _ => trivial⟩

/-- Members one after another, by induction on their list. -/
theorem Ends.forEach {α : Type} {members : List α} {f : α → Branches}
    (h : ∀ a ∈ members, (f a).Ends settled) : (forEach f members).Ends settled := by
  induction members with
  | nil => exact fun _ => trivial
  | cons a members ih =>
    intro s
    exact (h a List.mem_cons_self s).append (ih fun other hmem =>
      h other (List.mem_cons_of_mem _ hmem))

/-- Branches compared with nothing: they end. -/
def ending : Comparison Unit where
  holds settled _ branches _ := branches.Ends settled
  mono h hsettled s := (h s).mono hsettled
  congr h _ := h
  pure hsettled _ := .single hsettled
  bindName hsettled := .single hsettled
  unknown name _ := ⟨name, rfl⟩
  bind h hnext s := (h s).bind hnext
  within {_ _ scope _ _ _} h hsettled s := by
    rw [← Branches.bind_single fun branch : Branch => (⟨branch.text, scope⟩ : Branch)]
    exact (h s).bind fun _ _ => .single hsettled

/-- The one branch of a walk that finishes. -/
theorem Ends.walkBranch {render : Renderer} {command : Command} {method : Sampling} {ambient : Text}
    (h : (render command method ambient).Finishes settled scope) :
    (PromptTemplate.walkBranch render command method scope ambient).Ends settled := by
  intro s
  rw [PromptTemplate.walkBranch]
  rcases h ⟨scope, s⟩ rfl with ⟨text, after, hrun, hafter, -⟩ | ⟨name, after, hrun⟩
  · rw [hrun]
    exact ⟨hafter, fun _ => trivial⟩
  · rw [hrun]
    exact ⟨name, rfl⟩

/-- The branches of a node by its own method: all of them, or the one of a walk. -/
theorem Ends.byMethod {render : Renderer} {command : Command} {sampling : Option Sampling}
    {ambient : Text} (hall : branches.Ends settled)
    (hwalk : ∀ method, (render command method ambient).Finishes settled scope) :
    (PromptTemplate.byMethod render command sampling scope ambient branches).Ends settled := by
  cases sampling with
  | none => exact hall
  | some method =>
    cases method with
    | combinatorial => exact hall
    | random => exact .walkBranch (hwalk .random)
    | cyclical => exact .walkBranch (hwalk .cyclical)

/-- Enumerating within a depth ends if the depth pays for it, and if walks may go at least as
deep. -/
theorem ends_within {env : Environment} (hround : env.round = Binary64.round)
    (hsource : env.source.InUnit) {depth : Nat} (hdepth : depth ≤ env.depthLimit) :
    ending.Sound (.affordable depth) (enumerateWithin env .distinct depth)
      (fun _ => renderWithin env depth) .combinatorial := by
  induction depth with
  | zero =>
    intro command scope ambient hadmits
    exact (Affords.not_zero hadmits).elim
  | succ depth ih =>
    intro command scope ambient hadmits
    have hsound := ih (Nat.le_of_succ_le hdepth)
    have hparts := Affords.parts hadmits
    -- a node under an override is walked from the whole limit, which is no less than this depth
    have hwalk : ∀ method, (renderOnce env command method ambient).Finishes
        ((Contract.affordable (depth + 1)).settles [command] scope) scope := fun method =>
      finishes_within hround hsource env.depthLimit method command scope ambient
        ⟨hadmits.nodes, hadmits.bindings, hadmits.cost_le.trans hdepth⟩
    refine hsound.node (Contract.affordable_enters hparts) ambient fun hchooses => ?_
    have hself : (Contract.affordable depth).settles [command] scope scope :=
      (Contract.affordable depth).settles_self hparts
    cases command with
    | variant label options least most separator sampling =>
      refine Ends.byMethod ?_ hwalk
      unfold variantBranches
      have hfits : ∀ choice ∈ variantChoices (options.map (·.weight)) least most,
          (optionsAt options choice).Subperm (options.map (·.value)) :=
        fun choice hmem => (optionsAt_sublist hmem).subperm
      split
      · exact .single hself
      · refine Ends.forEach fun choice hmem => ?_
        have hjoined := hsound.joined
          ((Contract.affordable depth).sub hparts (hfits choice hmem)) separator ambient []
        exact ending.mono hjoined fun after hafter =>
          (Contract.affordable depth).node hafter (hfits choice hmem)
    | wildcard label name inlined sampling =>
      exact (hadmits.nodes _ (List.mem_singleton_self _)).here.elim
    | probability label chance value sampling =>
      refine Ends.byMethod (Ends.forEach fun included _ => ?_) hwalk
      cases included with
      | true =>
        exact ending.mono (hsound value scope ambient hparts) fun after hafter =>
          (Contract.affordable depth).node hafter (List.Subperm.refl _)
      | false => exact .single hself
    | _ => exact absurd rfl hchooses

end Branches

/-! ## 4. Whole trees -/

/-- **Variables never make rendering go on for ever.** Take a tree without wildcards and
variables that bring in none. Then there is a depth within which it renders, by whatever
method, after whatever text, in whatever session and with whatever draws: a walk ends with a
text or at a variable that is not bound, and the enumeration has finitely many branches and
ends behind them or at such a variable, also if the session goes on elsewhere between two
branches. The depth is the cost of the tree and of all bindings in reach. -/
theorem exists_depth_of_selfContained {command : Command} {scope : Scope}
    (hcommand : command.Everywhere Command.SelfContained)
    (hscope : scope.Everywhere Command.SelfContained) :
    ∃ depth, ∀ env : Environment, env.round = Binary64.round → env.source.InUnit →
      depth ≤ env.depthLimit → ∀ (ambient : Text) (s : Session),
      (∀ method : Sampling,
        (∃ text after, renderOnce env command method ambient ⟨scope, s⟩ = (.ok text, after)) ∨
        ∃ name after, renderOnce env command method ambient ⟨scope, s⟩ =
          (.error (.unknownVariable name), after)) ∧
      (enumerate env command scope ambient s).Ends (·.Everywhere Command.SelfContained) ∧
      ∃ branches after,
        (enumerate env command scope ambient).take none s = (branches, .exhausted, after) ∨
        ∃ name, (enumerate env command scope ambient).take none s =
          (branches, .failed (.unknownVariable name), after) := by
  refine ⟨command.cost + scope.cost, fun env hround hsource hdepth ambient s => ?_⟩
  have hadmits : (Contract.affordable env.depthLimit).admits [command] scope :=
    ⟨List.forall_mem_singleton.2 hcommand, hscope, by rwa [Command.totalCost_singleton]⟩
  have hends : (enumerate env command scope ambient s).Ends (·.Everywhere Command.SelfContained) :=
    (Branches.ends_within hround hsource (Nat.le_refl _) command scope ambient hadmits s).mono
      fun after hafter => hafter.bindings
  refine ⟨fun method => ?_, hends, hends.take_none⟩
  have hfinishes : (renderOnce env command method ambient).Finishes _ scope :=
    finishes_within hround hsource env.depthLimit method command scope ambient hadmits
  rcases hfinishes ⟨scope, s⟩ rfl with ⟨text, after, hrun, -, -⟩ | hfail
  · exact .inl ⟨text, after, hrun⟩
  · exact .inr hfail

/-- A variable that binds its own name anew while it renders, and one that reads it. -/
def loopingScope : Scope :=
  ((Scope.root []).bind (units "y")
    (.deferred (.access (units "x") (some (.literal (units "b")))) none)).bind (units "x")
    (.deferred (.sequence
      [.assignment (units "x") (.access (units "x") (some (.literal (units "a")))) true false,
        .access (units "x") none, .access (units "y") none]) none)

/-- Draws of a seed, on the grid, as deep as it takes. -/
def loopingEnvironment (depth : Nat) : Environment where
  grammar := .standard
  source := .seeded 7
  round := Binary64.round
  policy := .automatic
  resolve := fun _ => .ok []
  depthLimit := depth

/-- In its own rendering the variable stands for nothing, so that is what its new binding
replaces. -/
example : (renderOnce (loopingEnvironment 9) (.access (units "x") none) .random []
    ⟨loopingScope, .fresh 0⟩).1 = .ok (units "aa") := by decide +kernel

/-- A variable that is extended by itself finishes: each binding resolves to the one before. -/
theorem exists_depth_of_looping :
    (Command.access (units "x") none).Everywhere Command.SelfContained ∧
      loopingScope.Everywhere Command.SelfContained ∧
      ∃ depth, (loopingEnvironment depth).round = Binary64.round ∧
        (loopingEnvironment depth).source.InUnit ∧ ∀ s,
          (enumerate (loopingEnvironment depth) (.access (units "x") none) loopingScope [] s).Ends
            (·.Everywhere Command.SelfContained) := by
  -- the text of `x` reads `y`, which reads `x` again, with its own value out of reach by then
  have hleaf : ∀ name : Text, (Command.access name none).Everywhere Command.SelfContained :=
    fun _ => .node _ trivial fun _ hmem => by cases hmem
  have hread : ∀ name text : Text,
      (Command.access name (some (.literal text))).Everywhere Command.SelfContained :=
        fun name text =>
    .node _ trivial (List.forall_mem_singleton.2 (.node _ trivial fun _ hmem => by cases hmem))
  have hscope : loopingScope.Everywhere Command.SelfContained := by
    have hroot : (Scope.root []).Everywhere Command.SelfContained := fun _ _ h => by cases h
    have hbound :=
      hroot.bind (.deferred _ none (hread (units "x") (units "b")) fun _ h => by cases h)
      (units "y")
    have hagain : (Command.assignment (units "x")
        (.access (units "x") (some (.literal (units "a"))))
        true false).Everywhere Command.SelfContained :=
      .node _ trivial (List.forall_mem_singleton.2 (hread _ _))
    refine hbound.bind (.deferred _ none ?_ fun _ h => by cases h) (units "x")
    refine .node _ trivial ?_
    exact List.forall_mem_cons.2 ⟨hagain,
      List.forall_mem_cons.2 ⟨hleaf _, List.forall_mem_singleton.2 (hleaf _)⟩⟩
  obtain ⟨depth, hdepth⟩ := exists_depth_of_selfContained (hleaf (units "x")) hscope
  refine ⟨hleaf _, hscope, depth, rfl, Source.seeded_inUnit 7, fun s => ?_⟩
  exact (hdepth (loopingEnvironment depth) rfl (Source.seeded_inUnit 7) (Nat.le_refl _) [] s).2.1

end PromptTemplate
