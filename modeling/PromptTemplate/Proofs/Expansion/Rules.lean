/-
`Rules.lean` -- walks and branches, rule by rule.

A walk over a node and the branches of the node are put together alike from those of its
parts, so whatever way of comparing the two is kept by the ways of putting them together
passes from the parts of a node to the node. `Comparison` names these ways, and `Contract`
names what is asked of nodes and scopes along the way: what has to hold before nodes are
rendered, and what then holds of the scope that they leave. The rules of all nodes that
choose nothing are proved here once for every comparison and every contract; a node that
chooses is compared by its choices, which is different for each method.
-/
import Mathlib.Data.List.Perm.Subperm
import PromptTemplate.Expansion.Enumeration
import PromptTemplate.Proofs.Expansion.Following

set_option autoImplicit false

namespace PromptTemplate

/-! ## 1. Contracts -/

/-- What a node renders are parts of it. -/
theorem Command.rendered_subperm (command : Command) : command.rendered.Subperm command.parts := by
  cases command with
  | assignment name value overwrite immediate =>
    cases immediate with
    | true => exact List.Subperm.refl _
    | false => exact List.nil_subperm
  | sequence | wrap | condition | access => exact List.Subperm.refl _
  | _ => exact List.nil_subperm

/-- What is asked of nodes and of a scope before the nodes are rendered there one after
another (`admits`), of a name before it is read (`reads`) and of a command before a name is
bound to it (`defers`), and what rendering nodes makes of the scope (`settles`). -/
structure Contract where
  admits : List Command → Scope → Prop
  reads : Text → Prop
  defers : Text → Command → Scope → Prop
  settles : List Command → Scope → Scope → Prop
  sub : ∀ {commands others : List Command} {scope : Scope}, admits commands scope →
    others.Subperm commands → admits others scope
  tail : ∀ {command : Command} {commands : List Command} {before after : Scope},
    admits (command :: commands) before → settles [command] before after → admits commands after
  binding : ∀ {commands : List Command} {scope : Scope} {name : Text} {command : Command}
    {previous : Option Binding}, admits commands scope → reads name →
    scope.lookup name = some (.deferred command previous) →
    admits [command] (scope.push (resolvingFrame name previous))
  refl : ∀ {commands : List Command} {scope : Scope}, admits commands scope → settles [] scope scope
  cons : ∀ {command : Command} {commands : List Command} {before between after : Scope},
    settles [command] before between → settles commands between after →
    settles (command :: commands) before after
  node : ∀ {command : Command} {commands : List Command} {before after : Scope},
    settles commands before after → commands.Subperm command.parts → settles [command] before after
  evaluate : ∀ {name text : Text} {value : Command} {overwrite immediate : Bool}
    {before after : Scope}, settles [value] before after →
    settles [.assignment name value overwrite immediate] before (after.bind name (.evaluated text))
  defer : ∀ {name : Text} {value : Command} {overwrite immediate : Bool} {scope : Scope},
    defers name value scope →
    settles [.assignment name value overwrite immediate] scope
      (scope.bind name (.deferred value (scope.lookup name)))

namespace Contract

variable {k : Contract} {command : Command} {commands : List Command} {scope : Scope}

theorem of_mem (h : k.admits commands scope) (hmem : command ∈ commands) :
    k.admits [command] scope := k.sub h (List.singleton_subperm_iff.2 hmem)

/-- A node that is left at once settles like one whose parts are not rendered. -/
theorem settles_self (h : k.admits commands scope) : k.settles [command] scope scope :=
  k.node (k.refl h) (List.nil_subperm)

/-- All that is asked for what a node does: of the parts that it renders, of the names that it
reads, and of a value that it binds without rendering it. -/
structure Enters (k : Contract) (command : Command) (scope : Scope) : Prop where
  rendered : k.admits command.rendered scope
  names : ∀ name ∈ command.names, k.reads name
  deferred : ∀ name value overwrite, command = .assignment name value overwrite false →
    k.defers name value scope

/-- Where every name may be read, and whatever may be rendered may be bound, a node may do all
that it does as soon as its parts are admitted. -/
theorem enters_of_parts (hreads : ∀ name, k.reads name)
    (hdefers : ∀ name value scope, k.admits [value] scope → k.defers name value scope)
    (h : k.admits command.parts scope) : k.Enters command scope where
  rendered := k.sub h command.rendered_subperm
  names name _ := hreads name
  deferred name value overwrite hcommand := hdefers name value scope (by rwa [hcommand] at h)

end Contract

/-! ## 2. Comparisons -/

/-- A way of comparing branches with walks from a scope, which holds on to a property of
the scopes that are left, and is kept by the ways in which both are put together. There can
be a walk for each of several circumstances, such as sources of draws. -/
structure Comparison (ι : Type) where
  holds : (settled : Scope → Prop) → (scope : Scope) → Branches → (ι → Walk Text) → Prop
  mono : ∀ {between settled : Scope → Prop} {scope : Scope} {branches : Branches}
    {walk : ι → Walk Text}, holds between scope branches walk →
    (∀ after, between after → settled after) → holds settled scope branches walk
  congr : ∀ {settled : Scope → Prop} {scope : Scope} {branches : Branches}
    {walk other : ι → Walk Text}, holds settled scope branches walk →
    (∀ (i : ι) (w : Walking), w.scope.Agrees scope → other i w = walk i w) →
    holds settled scope branches other
  pure : ∀ {settled : Scope → Prop} {scope : Scope}, settled scope → ∀ text : Text,
    holds settled scope (.single ⟨text, scope⟩) fun _ => Pure.pure text
  bindName : ∀ {settled : Scope → Prop} {scope : Scope} {name : Text} {binding : Binding},
    settled (scope.bind name binding) →
    holds settled scope (.single ⟨[], scope.bind name binding⟩) fun _ => do
      Walk.bindName name binding
      return []
  unknown : ∀ {settled : Scope → Prop} {scope : Scope} (name : Text),
    holds settled scope (.fail (.unknownVariable name)) fun _ => Walk.fail (.unknownVariable name)
  bind : ∀ {between settled : Scope → Prop} {scope : Scope} {branches : Branches}
    {walk : ι → Walk Text} {f : Branch → Branches} {next : ι → Text → Walk Text},
    holds between scope branches walk →
    (∀ branch, between branch.scope →
      holds settled branch.scope (f branch) fun i => next i branch.text) →
    holds settled scope (branches.bind f) fun i => walk i >>= next i
  within : ∀ {between settled : Scope → Prop} {scope : Scope} {frame : Frame} {branches : Branches}
    {walk : ι → Walk Text}, holds between (scope.push frame) branches walk → settled scope →
    holds settled scope (branches.map fun branch => ⟨branch.text, scope⟩) fun i =>
      Walk.within frame (walk i)

namespace Comparison

variable {ι : Type} {c : Comparison ι} {k : Contract} {enumerate : Enumerator}
  {render : ι → Renderer} {method : Sampling} {settled : Scope → Prop} {scope : Scope}

theorem pure_same (c : Comparison ι) (scope : Scope) (text : Text) :
    c.holds (· = scope) scope (.single ⟨text, scope⟩) fun _ => Pure.pure text :=
  @Comparison.pure ι c (· = scope) scope rfl text

/-- Changing the text of each branch is changing the text of the walk. -/
theorem map {branches : Branches} {walk : ι → Walk Text} (h : c.holds settled scope branches walk)
    (f : Text → Text) :
    c.holds settled scope (branches.map fun branch => ⟨f branch.text, branch.scope⟩) fun i =>
      walk i >>= fun text => Pure.pure (f text) := by
  rw [← Branches.bind_single]
  exact c.bind h fun branch hsettled => c.pure hsettled (f branch.text)

/-- The walks by one method compare with the branches wherever the contract lets a node be
rendered, and leave what the contract says. -/
def Sound (c : Comparison ι) (k : Contract) (enumerate : Enumerator) (render : ι → Renderer)
    (method : Sampling) : Prop :=
  ∀ (command : Command) (scope : Scope) (ambient : Text), k.admits [command] scope →
    c.holds (k.settles [command] scope) scope (enumerate command scope ambient) fun i =>
      render i command method ambient

/-! ## 3. The rules of the nodes -/

/-- A name that is not bound. -/
theorem renderBinding_none {render : Renderer} {name ambient : Text}
    (hbinding : bindingBranches enumerate scope ambient name = none) {w : Walking}
    (hw : w.scope.Agrees scope) (next : Option Text → Walk Text) :
    (renderBinding render method ambient name >>= next) w = next none w := by
  unfold bindingBranches at hbinding
  cases hlookup : scope.lookup name with
  | none =>
    rw [renderBinding, Walk.bind_assoc, Walk.lookup_bind hw, hlookup]
    rfl
  | some binding =>
    rw [hlookup] at hbinding
    cases binding <;> cases hbinding

namespace Sound

variable (hsound : c.Sound k enumerate render method)
include hsound

/-- Nodes one after another, each with what was rendered so far before it. -/
theorem product {children : List Command} (hadmits : k.admits children scope) (ambient : Text) :
    c.holds (k.settles children scope) scope
      (PromptTemplate.product enumerate children scope ambient) fun i =>
      renderSequence (render i) method children ambient := by
  induction children generalizing scope ambient with
  | nil => exact c.pure (k.refl hadmits) []
  | cons child children ih =>
    refine c.bind (hsound child scope ambient (k.of_mem hadmits List.mem_cons_self))
      fun first hfirst => ?_
    -- the rest goes on from the scope the first child left, not from `scope`
    have hrest := ih (k.tail hadmits hfirst) (ambient ++ first.text)
    exact map (c.mono hrest fun after hafter => k.cons hfirst hafter) fun rest => first.text ++ rest

/-- Nodes with the same text before them, joined with a separator. -/
theorem joined {values : List Command} (hadmits : k.admits values scope) (separator ambient : Text)
    (parts : List Text) :
    c.holds (k.settles values scope) scope
      (joinedBranches enumerate separator ambient parts values scope) fun i =>
      renderEach (render i) method ambient values >>= fun rest =>
        Pure.pure (Text.join separator (parts ++ rest)) := by
  induction values generalizing scope parts with
  | nil =>
    have hpure := c.pure (k.refl hadmits) (Text.join separator parts)
    refine c.congr hpure fun i w _ => ?_
    rw [renderEach, Walk.pure_bind, List.append_nil]
  | cons value values ih =>
    -- the walk joins at its end, the branches carry the parts along: the first text is
    -- moved into `parts`, so that the induction hypothesis applies to what is left
    have hwalk : ∀ i, (renderEach (render i) method ambient (value :: values) >>= fun rest =>
          Pure.pure (Text.join separator (parts ++ rest))) =
        (render i value method ambient >>= fun first =>
          renderEach (render i) method ambient values >>= fun rest =>
            Pure.pure (Text.join separator ((parts ++ [first]) ++ rest))) := by
      intro i
      simp only [renderEach, Walk.bind_assoc, List.append_assoc, List.singleton_append]
      rfl
    refine c.congr (c.bind (hsound value scope ambient (k.of_mem hadmits List.mem_cons_self))
      fun first hfirst => ?_) fun i w _ => congrFun (hwalk i) w
    exact c.mono (ih (k.tail hadmits hfirst) (parts ++ [first.text])) fun after hafter =>
      k.cons hfirst hafter

/-! ### Variables -/

/-- A name that is bound: its branches leave the scope as it is, and walks compare with them
that stand in for the rendering of the binding. -/
theorem exists_walk_of_binding {commands : List Command} (hadmits : k.admits commands scope)
    {name ambient : Text} (hname : k.reads name) {branches : Branches}
    (hbinding : bindingBranches enumerate scope ambient name = some branches) :
    ∃ walk : ι → Walk Text, c.holds (· = scope) scope branches walk ∧
      ∀ (i : ι) (w : Walking), w.scope.Agrees scope → ∀ next : Option Text → Walk Text,
        (renderBinding (render i) method ambient name >>= next) w =
          (walk i >>= fun text => next (some text)) w := by
  unfold bindingBranches at hbinding
  cases hlookup : scope.lookup name with
  | none => rw [hlookup] at hbinding; cases hbinding
  | some binding =>
    rw [hlookup] at hbinding
    cases binding with
    | evaluated text =>
      cases hbinding
      refine ⟨_, c.pure_same scope text, fun i w hw next => ?_⟩
      rw [renderBinding, Walk.bind_assoc, Walk.lookup_bind hw, hlookup]
      rfl
    | deferred command previous =>
      cases hbinding
      -- both sides render the command in the scope as it was before the binding
      refine ⟨_, c.within (hsound command _ ambient (k.binding hadmits hname hlookup)) rfl,
        fun i w hw next => ?_⟩
      rw [renderBinding, Walk.bind_assoc, Walk.lookup_bind hw, hlookup]
      simp only [Walk.bind_assoc, Walk.pure_bind]

/-- What a branch tests. -/
theorem target {commands : List Command} (hadmits : k.admits commands scope) (key : Option Text)
    (hkey : ∀ name ∈ key, k.reads name) (ambient : Text) :
    c.holds (· = scope) scope (targetBranches enumerate scope ambient key) fun i =>
      renderTarget (render i) method ambient key := by
  cases key with
  | none => exact c.pure_same scope ambient
  | some key =>
    simp only [targetBranches, renderTarget]
    cases hbinding : bindingBranches enumerate scope ambient key with
    | none => exact c.congr (c.pure_same scope []) fun i w hw => renderBinding_none hbinding hw _
    | some branches =>
      obtain ⟨walk, hwalk, hsame⟩ := hsound.exists_walk_of_binding hadmits (hkey key rfl) hbinding
      refine c.congr hwalk fun i w hw => ?_
      rw [hsame i w hw]
      exact congrFun (Walk.bind_pure (walk i)) w

/-- The first branch whose guard holds, or else the last resort. -/
theorem condition {branches : List (Guarded Command)} {otherwise : Command}
    {commands : List Command} (hadmits : k.admits commands scope)
    (hbranches : ∀ branch ∈ branches, branch.value ∈ commands)
    (hkeys : ∀ branch ∈ branches, ∀ name ∈ branch.guard.key, k.reads name)
    (hotherwise : otherwise ∈ commands)
    (hsettled : ∀ command ∈ commands, ∀ after, k.settles [command] scope after → settled after)
    (ambient : Text) :
    c.holds settled scope (conditionBranches enumerate otherwise ambient branches scope) fun i =>
      renderCondition (render i) method ambient otherwise branches := by
  induction branches with
  | nil =>
    exact c.mono (hsound otherwise scope ambient (k.of_mem hadmits hotherwise))
      (hsettled otherwise hotherwise)
  | cons branch branches ih =>
    -- a test leaves the scope as it is, so both sides go on from `scope`
    have htarget := hsound.target hadmits branch.guard.key (hkeys branch List.mem_cons_self) ambient
    refine c.bind htarget fun target htarget => ?_
    rw [htarget]
    by_cases htest : branch.guard.pattern.test target.text = true
    · simp only [if_pos htest]
      have hmem := hbranches branch List.mem_cons_self
      exact c.mono (hsound branch.value scope ambient (k.of_mem hadmits hmem)) (hsettled _ hmem)
    · simp only [if_neg htest]
      exact ih (fun other hmem => hbranches other (List.mem_cons_of_mem _ hmem))
        fun other hmem => hkeys other (List.mem_cons_of_mem _ hmem)

/-- The reading of a variable. -/
theorem access {fallback : Option Command} (hadmits : k.admits fallback.toList scope) {name : Text}
    (hname : k.reads name) (hself : settled scope)
    (hsettled : ∀ after, k.settles fallback.toList scope after → settled after) (ambient : Text) :
    c.holds settled scope (accessBranches enumerate scope ambient name fallback) fun i =>
      renderAccess (render i) method ambient name fallback := by
  unfold accessBranches renderAccess
  -- whether the name is bound is the same question for both; only its value
  -- is rendered in their ways
  cases hbinding : bindingBranches enumerate scope ambient name with
  | some branches =>
    obtain ⟨walk, hwalk, hsame⟩ := hsound.exists_walk_of_binding hadmits hname hbinding
    refine c.congr (c.mono hwalk fun after hafter => hafter ▸ hself) fun i w hw => ?_
    rw [hsame i w hw]
    exact congrFun (Walk.bind_pure (walk i)) w
  | none =>
    cases fallback with
    | none => exact c.congr (c.unknown name) fun i w hw => renderBinding_none hbinding hw _
    | some command =>
      exact c.congr (c.mono (hsound command scope ambient hadmits) hsettled) fun i w hw =>
        renderBinding_none hbinding hw _

/-- The binding of a variable. -/
theorem assignment {name : Text} {value : Command} {overwrite immediate : Bool}
    (henters : k.Enters (.assignment name value overwrite immediate) scope) (ambient : Text) :
    c.holds (k.settles [.assignment name value overwrite immediate] scope) scope
      (assignmentBranches enumerate scope ambient name value overwrite immediate) fun i =>
      renderAssignment (render i) method ambient name value overwrite immediate := by
  unfold assignmentBranches renderAssignment
  refine c.congr ?_ fun i w hw => Walk.lookup_bind hw name _
  -- an assignment that does not overwrite looks at the scope only, so it goes before the split
  rw [Scope.has]
  by_cases hkeep : (!overwrite && (scope.lookup name).isSome) = true
  · simp only [if_pos hkeep]
    exact c.pure (k.settles_self henters.rendered) []
  · simp only [if_neg hkeep]
    cases immediate with
    | true =>
      simp only [if_pos]
      rw [← Branches.bind_single]
      exact c.bind (hsound value scope ambient henters.rendered) fun branch hbranch =>
        c.bindName (k.evaluate hbranch)
    | false => exact c.bindName (k.defer (henters.deferred _ _ _ rfl))

/-- What goes around something is rendered after it. -/
theorem wrap {wrapper inner : Command} (hadmits : k.admits [inner, wrapper] scope)
    (ambient : Text) :
    c.holds (k.settles [inner, wrapper] scope) scope
      (wrapBranches enumerate scope ambient wrapper inner) fun i =>
      render i inner method ambient >>= fun inner =>
        render i wrapper method ambient >>= fun wrapper => Pure.pure (applyWrap wrapper inner) := by
  refine c.bind (hsound inner scope ambient (k.of_mem hadmits List.mem_cons_self))
    fun first hfirst => ?_
  have hsecond := hsound wrapper first.scope ambient (k.tail hadmits hfirst)
  exact map (c.mono hsecond fun after hafter => k.cons hfirst hafter) fun wrapper =>
    applyWrap wrapper first.text

/-! ## 4. Nodes -/

/-- A node that may do all that it does, if the nodes that choose compare. -/
theorem node {env : Environment} {environments : ι → Environment} {kept : Branches → Branches}
    {command : Command} (henters : k.Enters command scope) (ambient : Text)
    (hchoosing : command.label? ≠ none →
      c.holds (k.settles [command] scope) scope
        (enumerateNode env kept enumerate command scope ambient) fun i =>
        renderNode (environments i) (render i) command method ambient) :
    c.holds (k.settles [command] scope) scope
      (enumerateNode env kept enumerate command scope ambient) fun i =>
      renderNode (environments i) (render i) command method ambient := by
  -- parts settle for less than the node, which counts all of them
  have hparts : ∀ {commands : List Command}, commands.Subperm command.parts → ∀ after,
      k.settles commands scope after → k.settles [command] scope after :=
    fun hsub after hafter => k.node hafter hsub
  have hrendered := henters.rendered
  cases command with
  | literal text => exact c.pure (k.settles_self hrendered) text
  | comment text => exact c.pure (k.settles_self hrendered) []
  | sequence children =>
    have hchildren := hsound.product hrendered ambient
    rw [← sequenceBranches_eq_product] at hchildren
    exact c.mono hchildren (hparts (List.Subperm.refl _))
  | wrap wrapper inner =>
    have hswap : List.Subperm [inner, wrapper] [wrapper, inner] := (List.Perm.swap _ _ _).subperm
    exact c.mono (hsound.wrap (k.sub hrendered hswap) ambient) (hparts hswap)
  | condition branches otherwise =>
    refine hsound.condition hrendered (fun branch hmem => ?_) (fun branch hmem name hname => ?_) ?_
      (fun part hmem => ?_) ambient
    · exact List.mem_append_left _ (List.mem_map_of_mem hmem)
    · exact henters.names name (List.mem_filterMap.2 ⟨branch, hmem, hname⟩)
    · exact List.mem_append_right _ (List.mem_singleton_self _)
    · exact hparts (List.singleton_subperm_iff.2 hmem)
  | access name fallback =>
    have hname : k.reads name := henters.names name (List.mem_singleton_self _)
    exact hsound.access hrendered hname (k.settles_self hrendered) (hparts (List.Subperm.refl _))
      ambient
  | assignment name value overwrite immediate => exact hsound.assignment henters ambient
  | variant label options least most separator sampling => exact hchoosing nofun
  | wildcard label name inlined sampling => exact hchoosing nofun
  | probability label chance value sampling => exact hchoosing nofun

end Sound

end Comparison

/-! ## 5. Following -/

/-- Walks that follow branches, in one circumstance. -/
def Follows.comparison (known : Session → Prop) : Comparison Unit where
  holds settled scope branches walk := Follows known settled scope branches (walk ())
  mono h hsettled := h.mono hsettled
  congr h hsame := h.congr (hsame ())
  pure hsettled text := .pure hsettled text
  bindName hsettled := .single hsettled fun _ hw hs => ⟨_, rfl, hw.bind _ _, rfl, hs⟩
  unknown _ := .fail _ _
  bind h hnext := h.bind hnext
  within h hsettled := h.within hsettled

end PromptTemplate
