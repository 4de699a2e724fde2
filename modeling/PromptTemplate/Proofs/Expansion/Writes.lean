/-
`Writes.lean` -- which variables rendering can change.

A tree binds only the names that it assigns where it stands (`Command.Assigns`): what a
binding, a condition or a wildcard renders of other trees stays in a frame of its own. The
invariant is one relation between two scopes, `Scope.GrownBy`: the later one is the
earlier one with entries for some names laid on top, around the same frames. It holds
of every walk on whatever way the walk ends, and of every branch of an enumeration. Both are
proved rule by rule, as for a footprint: the names are fixed for a node, and each of its parts
writes no others.
-/
import PromptTemplate.Expansion.Enumeration
import PromptTemplate.Proofs.Expansion.Choices
import PromptTemplate.Proofs.Expansion.Following

set_option autoImplicit false

namespace PromptTemplate

/-! ## 1. The names that a tree assigns -/

/-- The nodes right below a node that render in the scope of the node itself: the value of a
deferred binding and the inline variables of a wildcard do not. -/
def Command.inPlace : Command → List Command
  | .wildcard _ name _ _ => name.parts
  | .assignment _ value _ immediate => if immediate then [value] else []
  | command => command.parts

/-- The name is assigned somewhere in the tree where it renders in place. -/
inductive Command.Assigns : Command → Text → Prop
  | here (name : Text) (value : Command) (overwrite immediate : Bool) :
    Assigns (.assignment name value overwrite immediate) name
  | part {command inner : Command} {name : Text} (hinner : inner ∈ command.inPlace)
      (h : inner.Assigns name) : Assigns command name

/-! ## 2. Scopes that have grown -/

namespace Scope

/-- Entries for some of the names were added to the scope; what was there is still there
underneath, and the frames around it are the same. -/
def GrownBy (names : Text → Prop) (before after : Scope) : Prop :=
  ∃ added : Frame, after = ⟨added ++ before.own, before.parents⟩ ∧ ∀ entry ∈ added, names entry.1

namespace GrownBy

variable {names others : Text → Prop} {before between after : Scope}

/-- A scope has grown by nothing from itself. -/
theorem refl (names : Text → Prop) (scope : Scope) : scope.GrownBy names scope :=
  ⟨[], rfl, fun _ hmem => nomatch hmem⟩

/-- Growing on and on is growing. -/
theorem trans (h : before.GrownBy names between) (h' : between.GrownBy names after) :
    before.GrownBy names after := by
  obtain ⟨added, rfl, hadded⟩ := h
  obtain ⟨added', rfl, hadded'⟩ := h'
  refine ⟨added' ++ added, by rw [List.append_assoc], fun entry hmem => ?_⟩
  exact (List.mem_append.1 hmem).elim (hadded' entry) (hadded entry)

/-- What grew by some names grew by more of them. -/
theorem mono (h : before.GrownBy names after) (hnames : ∀ name, names name → others name) :
    before.GrownBy others after := by
  obtain ⟨added, hafter, hadded⟩ := h
  exact ⟨added, hafter, fun entry hmem => hnames _ (hadded entry hmem)⟩

/-- Binding one of the names is growing by it. -/
theorem bind {name : Text} (hname : names name) (scope : Scope) (binding : Binding) :
    scope.GrownBy names (scope.bind name binding) := by
  refine ⟨[(name, some binding)], rfl, fun entry hmem => ?_⟩
  rw [List.mem_singleton.1 hmem]
  exact hname

/-- The frames around the scope are never touched. -/
theorem parents_eq (h : before.GrownBy names after) : after.parents = before.parents := by
  obtain ⟨added, rfl, -⟩ := h
  rfl

/-- Every other name reads as before. -/
theorem lookup_eq (h : before.GrownBy names after) {name : Text} (hname : ¬ names name) :
    after.lookup name = before.lookup name := by
  obtain ⟨added, rfl, hadded⟩ := h
  have hnone : added.lookup name = none := by
    refine List.lookup_eq_none_iff.2 fun entry hmem => ?_
    exact bne_iff_ne.2 fun heq => hname (heq ▸ hadded entry hmem)
  simp only [lookup, lookupIn, List.lookup_append, hnone, Option.none_or]

/-- A scope that grows by no name is the same scope. -/
theorem eq_of_none (h : before.GrownBy (fun _ => False) after) : after = before := by
  obtain ⟨added, rfl, hadded⟩ := h
  cases added with
  | nil => rfl
  | cons entry added => exact (hadded entry List.mem_cons_self).elim

/-- Leaving a scope inside this one gives this one back, whatever the inner one grew by. -/
theorem pop {frame : Frame} {scope inner : Scope} (h : (scope.push frame).GrownBy names inner) :
    inner.pop = scope :=
  pop_of_parents_push h.parents_eq

end GrownBy

end Scope

/-! ## 3. Walks -/

/-- However the walk ends, it has bound none but these names. -/
def Walk.Writes {α : Type} (names : Text → Prop) (walk : Walk α) : Prop :=
  ∀ w : Walking, w.scope.GrownBy names (walk w).2.scope

/-- No walk over a tree binds other names than the tree assigns. -/
def Renderer.Frames (render : Renderer) : Prop :=
  ∀ (command : Command) (method : Sampling) (ambient : Text),
    (render command method ambient).Writes command.Assigns

namespace Walk.Writes

variable {α β : Type} {names : Text → Prop} {walk : Walk α}

/-- A walk that leaves the scope alone. -/
theorem of_scope (h : ∀ w, (walk w).2.scope = w.scope) : walk.Writes names :=
  fun w => (h w).symm ▸ .refl names w.scope

/-- Without a step nothing is bound. -/
theorem pure (a : α) : (Pure.pure a : Walk α).Writes names := of_scope fun _ => rfl

/-- Steps one after another bind what they bind each. -/
theorem bind (h : walk.Writes names) {next : α → Walk β} (hnext : ∀ a, (next a).Writes names) :
    (walk >>= next).Writes names := by
  intro w
  have hfirst := h w
  change w.scope.GrownBy names (Walk.andThen walk next w).2.scope
  unfold Walk.andThen
  split
  · next a after hrun =>
    rw [hrun] at hfirst
    exact hfirst.trans (hnext a after)
  -- a walk that ends with an error leaves its marks, and nothing follows
  · next error after hrun =>
    rw [hrun] at hfirst
    exact hfirst

/-- Only members are picked. -/
theorem pick {members : List α} {index : Option Nat} {next : α → Walk β}
    (hnext : ∀ a ∈ members, (next a).Writes names) :
    (Walk.pick members index >>= next).Writes names := by
  unfold Walk.pick
  split
  · next a hpicked =>
    obtain ⟨place, -, hplace⟩ := Option.bind_eq_some_iff.1 hpicked
    exact hnext a (List.mem_of_getElem? hplace)
  · exact of_scope fun _ => rfl

/-- Whatever is bound in a scope inside the present one is bound there. -/
theorem scope_within (h : walk.Writes names) (frame : Frame) (w : Walking) :
    (Walk.within frame walk w).2.scope = w.scope :=
  (h { w with scope := w.scope.push frame }).pop

end Walk.Writes

section Walks

variable {env : Environment} {render : Renderer} (hrender : render.Frames) {names : Text → Prop}
  {method : Sampling} {ambient : Text}
include hrender

/-- Nodes one after another bind the names that they assign, by induction on their list. -/
theorem renderSequence_writes {children : List Command}
    (h : ∀ child ∈ children, ∀ name, child.Assigns name → names name) :
    (renderSequence render method children ambient).Writes names := by
  induction children generalizing ambient with
  | nil => exact .pure []
  | cons child children ih =>
    obtain ⟨hchild, hchildren⟩ := List.forall_mem_cons.1 h
    refine .bind (fun w => (hrender child method ambient w).mono hchild) fun first => ?_
    exact .bind (ih hchildren) fun rest => .pure _

/-- The same for several values, whose texts are kept apart. -/
theorem renderEach_writes {values : List Command}
    (h : ∀ value ∈ values, ∀ name, value.Assigns name → names name) :
    (renderEach render method ambient values).Writes names := by
  induction values with
  | nil => exact .pure []
  | cons value values ih =>
    obtain ⟨hvalue, hvalues⟩ := List.forall_mem_cons.1 h
    refine .bind (fun w => (hrender value method ambient w).mono hvalue) fun first => ?_
    exact .bind (ih hvalues) fun rest => .pure _

/-- A loop of draws binds names of the options, by induction on how often it runs. -/
theorem renderDrawn_writes {options : List (Weighted Command)}
    (h : ∀ option ∈ options, ∀ name, option.value.Assigns name → names name) (count : Nat) :
    (renderDrawn env render options ambient count).Writes names := by
  induction count with
  | zero => exact .pure []
  | succ count ih =>
    refine .bind (.of_scope fun _ => rfl) fun index => .pick fun option hmem => ?_
    refine .bind (fun w => (hrender option.value .random ambient w).mono (h option hmem))
      fun first => ?_
    exact .bind ih fun rest => .pure _

/-- A variant binds names of its options alone. -/
theorem renderVariant_writes {label : Label} {options : List (Weighted Command)} {least most : Nat}
    {separator : Text} (h : ∀ option ∈ options, ∀ name, option.value.Assigns name → names name) :
    (renderVariant env render label options least most separator method ambient).Writes names := by
  unfold renderVariant
  dsimp only
  -- in rotation the choices run over all options; at random only those
  -- that were drawn are rendered
  split
  · split
    · exact .pure []
    · refine .bind (.of_scope fun _ => rfl) fun count => ?_
      exact .bind (renderDrawn_writes hrender h _) fun parts => .pure _
  · split
    · exact .pure []
    · refine .bind (.of_scope fun _ => rfl) fun place => .pick fun choice hmem => ?_
      refine .bind (renderEach_writes hrender fun value hvalue => ?_) fun parts => .pure _
      obtain ⟨option, hoption, rfl⟩ := List.mem_map.1 ((optionsAt_sublist hmem).subset hvalue)
      exact h option hoption

/-- What a binding renders stays in the frame in which it renders. -/
theorem renderBinding_scope (method : Sampling) (ambient name : Text) (w : Walking) :
    (renderBinding render method ambient name w).2.scope = w.scope := by
  have hwrites : (renderBinding render method ambient name).Writes fun _ => False := by
    refine .bind (.of_scope fun _ => rfl) fun binding => ?_
    match binding with
    | none => exact .pure none
    | some (.evaluated text) => exact .pure (some text)
    | some (.deferred command previous) =>
      exact .bind (.of_scope fun w => (hrender command method ambient).scope_within _ w) fun _ =>
        .pure _
  exact (hwrites w).eq_of_none

/-- Looking at the target of a condition leaves the scope as it was. -/
theorem renderTarget_scope (method : Sampling) (ambient : Text) (key : Option Text) (w : Walking) :
    (renderTarget render method ambient key w).2.scope = w.scope := by
  cases key with
  | none => rfl
  | some key =>
    have hwrites : (renderTarget render method ambient (some key)).Writes fun _ => False :=
      .bind (.of_scope (renderBinding_scope hrender method ambient key)) fun _ => .pure _
    exact (hwrites w).eq_of_none

/-- A wildcard binds names of its name: the candidate is rendered in a frame that is dropped. -/
theorem renderWildcard_writes {label : Label} {name : WildcardName Command}
    {inlined : List (Text × Command)} {sampling : Option Sampling}
    (h : ∀ part ∈ name.parts, ∀ assigned, part.Assigns assigned → names assigned) :
    (renderWildcard env render label name inlined sampling method ambient).Writes names := by
  have hname : (renderName render method ambient name).Writes names := by
    cases name with
    | fixed name => exact .pure name
    | rendered command =>
      exact fun w => (hrender command method ambient w).mono (h command (List.mem_singleton_self _))
  refine .bind hname fun name => .bind (.of_scope fun _ => rfl) fun candidates => ?_
  split
  · exact .pure []
  · refine .bind (.of_scope fun w => ?_) fun index => .pick fun candidate _ => .of_scope fun w => ?_
    · unfold candidateIndex
      split <;> rfl
    · exact (hrender candidate _ ambient).scope_within _ w

/-- A part with a chance binds names of its value or none. -/
theorem renderProbability_writes {label : Label} {chance : Rat} {value : Command}
    (h : ∀ name, value.Assigns name → names name) :
    (renderProbability env render label chance value method ambient).Writes names := by
  have hincluded : (isIncluded env label chance method).Writes names := by
    unfold isIncluded
    split
    · exact .of_scope fun _ => rfl
    · refine .bind (.of_scope fun _ => rfl) fun place => ?_
      rw [← Walk.bind_pure (Walk.pick _ _)]
      exact .pick fun included _ => .pure included
  refine .bind hincluded fun included => ?_
  split
  · exact fun w => (hrender value method ambient w).mono h
  · exact .pure []

/-- A condition binds names of one of its values, by induction on what is left of it. -/
theorem renderCondition_writes {branches : List (Guarded Command)} {otherwise : Command}
    (hbranches : ∀ branch ∈ branches, ∀ name, branch.value.Assigns name → names name)
    (hotherwise : ∀ name, otherwise.Assigns name → names name) :
    (renderCondition render method ambient otherwise branches).Writes names := by
  induction branches with
  | nil => exact fun w => (hrender otherwise method ambient w).mono hotherwise
  | cons branch branches ih =>
    obtain ⟨hbranch, hrest⟩ := List.forall_mem_cons.1 hbranches
    refine .bind (.of_scope (renderTarget_scope hrender method ambient _)) fun target => ?_
    split
    · exact fun w => (hrender branch.value method ambient w).mono hbranch
    · exact ih hrest

/-- Reading a variable binds names of its default at most. -/
theorem renderAccess_writes {name : Text} {fallback : Option Command}
    (h : ∀ command ∈ fallback.toList, ∀ assigned, command.Assigns assigned → names assigned) :
    (renderAccess render method ambient name fallback).Writes names := by
  refine .bind (.of_scope (renderBinding_scope hrender method ambient name)) fun text => ?_
  cases text with
  | some text => exact .pure text
  | none =>
    cases fallback with
    | some command =>
      exact fun w => (hrender command method ambient w).mono (h command (List.mem_singleton_self _))
    | none => exact .of_scope fun _ => rfl

/-- An assignment binds its name, and names of its value if that is rendered at once. -/
theorem renderAssignment_writes {name : Text} {value : Command} {overwrite immediate : Bool}
    (hname : names name)
    (hvalue : immediate = true → ∀ assigned, value.Assigns assigned → names assigned) :
    (renderAssignment render method ambient name value overwrite immediate).Writes names := by
  have hbind : ∀ binding, (Walk.bindName name binding).Writes names :=
    fun binding w => .bind hname w.scope binding
  refine .bind (.of_scope fun _ => rfl) fun earlier => ?_
  split
  · exact .pure []
  · split
    · next himmediate =>
      refine .bind (fun w => (hrender value method ambient w).mono (hvalue himmediate)) fun text =>
        ?_
      exact .bind (hbind _) fun _ => .pure []
    · exact .bind (hbind _) fun _ => .pure []

/-- A node binds what it assigns itself and what the parts assign that render in place. -/
theorem renderNode_frames : Renderer.Frames (renderNode env render) := by
  intro command method ambient
  -- what a node renders in place may assign only what the node itself may assign
  have hparts : ∀ part ∈ command.inPlace, ∀ name, part.Assigns name → command.Assigns name :=
    fun inner hmem name => .part hmem
  cases command with
  | literal text => exact .pure text
  | comment text => exact .pure []
  | sequence children => exact renderSequence_writes hrender hparts
  | variant label options least most separator sampling =>
    exact renderVariant_writes hrender fun option hmem => hparts _ (List.mem_map_of_mem hmem)
  | wildcard label name inlined sampling => exact renderWildcard_writes hrender hparts
  | wrap wrapper inner =>
    refine .bind (fun w => (hrender inner method ambient w).mono
      (hparts inner (List.mem_cons_of_mem _ (List.mem_singleton_self _)))) fun inner => ?_
    -- the wrapper comes second, but both stand in the same list of parts
    refine .bind (fun w => (hrender wrapper method ambient w).mono
      (hparts wrapper List.mem_cons_self)) fun wrapper => .pure _
  | probability label chance value sampling =>
    exact renderProbability_writes hrender (hparts value (List.mem_singleton_self _))
  | condition branches otherwise =>
    exact renderCondition_writes hrender
      (fun branch hmem => hparts _ (List.mem_append_left _ (List.mem_map_of_mem hmem)))
      (hparts otherwise (List.mem_append_right _ (List.mem_singleton_self _)))
  | access name fallback => exact renderAccess_writes hrender hparts
  | assignment name value overwrite immediate =>
    refine renderAssignment_writes hrender (.here name value overwrite immediate) fun himmediate =>
      ?_
    exact hparts value (by simp [Command.inPlace, himmediate])

end Walks

/-- Walks bind only what their tree assigns, at whatever depth. -/
theorem renderWithin_frames (env : Environment) (depth : Nat) :
    Renderer.Frames (renderWithin env depth) := by
  induction depth with
  | zero => exact fun command method ambient => .of_scope fun _ => rfl
  | succ depth ih => exact renderNode_frames ih

/-! ## 4. Branches -/

/-- Every branch has the property, however the run is resumed. -/
def Run.All (p : Branch → Prop) : Run → Prop
  | .done _ | .fail _ _ => True
  | .yield branch _ rest => p branch ∧ ∀ s, (rest s).All p

namespace Run.All

variable {p q : Branch → Prop} {run : Run}

/-- What all branches are, they are under a weaker condition. -/
theorem mono (h : run.All q) (hpq : ∀ branch, q branch → p branch) : run.All p := by
  induction run with
  | done s => trivial
  | fail error s => trivial
  | yield branch s rest ih => exact ⟨hpq branch h.1, fun s => ih s (h.2 s)⟩

/-- A run that goes on with such branches has such branches only. -/
theorem append (h : run.All p) {next : Branches} (hnext : ∀ s, (next s).All p) :
    (run.append next).All p := by
  induction run with
  | done s => exact hnext s
  | fail error s => trivial
  | yield branch s rest ih => exact ⟨h.1, fun s => ih s (h.2 s)⟩

/-- So has one whose every branch leads to such branches. -/
theorem bind (h : run.All q) {f : Branch → Branches}
    (hf : ∀ branch, q branch → ∀ s, (f branch s).All p) : (run.bind f).All p := by
  induction run with
  | done s => trivial
  | fail error s => trivial
  | yield branch s rest ih => exact (hf branch h.1 s).append fun s => ih s (h.2 s)

/-- Leaving branches out leaves the others as they are. -/
theorem distinct (h : run.All p) (seen : List Text) : (run.distinct seen).All p := by
  induction run generalizing seen with
  | done s => trivial
  | fail error s => trivial
  | yield branch s rest ih =>
    rw [Run.distinct]
    split
    · exact ih s (h.2 s) seen
    · exact ⟨h.1, fun s => ih s (h.2 s) _⟩

end Run.All

/-- From the scope on, no branch binds other names than these. -/
def Branches.Writes (names : Text → Prop) (scope : Scope) (branches : Branches) : Prop :=
  ∀ s, (branches s).All fun branch => scope.GrownBy names branch.scope

/-- No branch of a tree binds other names than the tree assigns. -/
def Enumerator.Frames (enumerate : Enumerator) : Prop :=
  ∀ (command : Command) (scope : Scope) (ambient : Text),
    (enumerate command scope ambient).Writes command.Assigns scope

namespace Branches.Writes

variable {names others : Text → Prop} {scope : Scope} {branches : Branches}

/-- Names that are bound are among more names. -/
theorem mono (h : branches.Writes others scope) (hnames : ∀ name, others name → names name) :
    branches.Writes names scope :=
  fun s => (h s).mono fun _ hbranch => hbranch.mono hnames

/-- One branch binds what its scope has grown by. -/
theorem single {branch : Branch} (h : scope.GrownBy names branch.scope) :
    (Branches.single branch).Writes names scope := fun _ => ⟨h, fun _ => trivial⟩

/-- One branch in the scope as it is. -/
theorem single_self (text : Text) : (Branches.single ⟨text, scope⟩).Writes names scope :=
  single (.refl names scope)

/-- An error leaves no scope. -/
theorem fail (error : WalkError) : (Branches.fail error).Writes names scope := fun _ => trivial

/-- What each branch leads to binds on from its scope. -/
theorem bind (h : branches.Writes names scope) {f : Branch → Branches}
    (hf : ∀ branch, (f branch).Writes names branch.scope) : (branches.bind f).Writes names scope :=
  fun s => (h s).bind fun branch hbranch s => (hf branch s).mono fun _ hafter =>
    hbranch.trans hafter

/-- Changing the branches binds what the change binds. -/
theorem map (h : branches.Writes names scope) {f : Branch → Branch}
    (hf : ∀ branch : Branch, branch.scope.GrownBy names (f branch).scope) :
    (branches.map f).Writes names scope := by
  rw [← Branches.bind_single]
  exact h.bind fun branch => single (hf branch)

/-- Leaving branches out binds nothing. -/
theorem distinct (h : branches.Writes names scope) : branches.distinct.Writes names scope :=
  fun s => (h s).distinct []

/-- Members one after another, by induction on their list. -/
theorem forEach {α : Type} {members : List α} {f : α → Branches}
    (h : ∀ a ∈ members, (f a).Writes names scope) :
    (Branches.forEach f members).Writes names scope := by
  induction members with
  | nil => exact fun _ => trivial
  | cons a members ih =>
    obtain ⟨ha, hmembers⟩ := List.forall_mem_cons.1 h
    exact fun s => (ha s).append (ih hmembers)

/-- Branches rendered elsewhere that all come back with the scope. -/
theorem elsewhere (branches : Branches) (scope : Scope) :
    (branches.map fun branch => ⟨branch.text, scope⟩).Writes names scope := by
  intro s
  rw [Branches.map]
  generalize branches s = run
  induction run with
  | done s => trivial
  | fail error s => trivial
  | yield branch s rest ih => exact ⟨.refl names scope, ih⟩

end Branches.Writes

section Branches

variable {env : Environment} {enumerate : Enumerator} (henumerate : enumerate.Frames)
  {names : Text → Prop} {scope : Scope} {ambient : Text}

/-- The one branch of a walk. -/
theorem walkBranch_writes {render : Renderer} {command : Command} {method : Sampling}
    (h : (render command method ambient).Writes names) :
    (walkBranch render command method scope ambient).Writes names scope := by
  intro s
  have hwalk := h ⟨scope, s⟩
  unfold walkBranch
  split
  · next text after hrun =>
    rw [hrun] at hwalk
    exact ⟨hwalk, fun _ => trivial⟩
  · trivial

/-- A node that is sampled is walked, and otherwise its branches are taken. -/
theorem byMethod_writes {render : Renderer} (hrender : render.Frames) {command : Command}
    {sampling : Option Sampling} {all : Branches} (hall : all.Writes command.Assigns scope) :
    (byMethod render command sampling scope ambient all).Writes command.Assigns scope := by
  unfold byMethod
  split
  · exact hall
  · exact hall
  · exact walkBranch_writes (hrender command _ ambient)

/-- What a binding renders stays in the frame in which it renders. -/
theorem targetBranches_writes (enumerate : Enumerator) (scope : Scope) (ambient : Text)
    (key : Option Text) :
    (targetBranches enumerate scope ambient key).Writes (fun _ => False) scope := by
  cases key with
  | none => exact .single_self ambient
  | some key =>
    rw [targetBranches, bindingBranches]
    split
    · exact .single_self []
    · exact .single_self _
    · exact .elsewhere _ scope

/-- What the candidates of a wildcard bind stays in the frame of the wildcard. -/
theorem candidateBranches_writes (env : Environment) (enumerate : Enumerator)
    (inlined : List (Text × Command)) (ambient : Text) (name : Branch) :
    (candidateBranches env enumerate inlined ambient name).Writes (fun _ => False) name.scope := by
  intro s
  unfold candidateBranches
  split
  · trivial
  · exact Branches.Writes.single_self [] _
  · exact Branches.Writes.forEach (fun candidate _ => .elsewhere _ name.scope) _

include henumerate

/-- Nodes one after another bind the names that they assign, by induction on their list. -/
theorem product_writes {children : List Command}
    (h : ∀ child ∈ children, ∀ name, child.Assigns name → names name) :
    (product enumerate children scope ambient).Writes names scope := by
  induction children generalizing scope ambient with
  | nil => exact .single_self []
  | cons child children ih =>
    obtain ⟨hchild, hchildren⟩ := List.forall_mem_cons.1 h
    refine .bind ((henumerate child scope ambient).mono hchild) fun first => ?_
    exact .map (ih hchildren) fun branch => .refl names branch.scope

/-- Values that are joined bind the names that they assign. -/
theorem joinedBranches_writes {values : List Command} (separator : Text)
    (h : ∀ value ∈ values, ∀ name, value.Assigns name → names name) (parts : List Text) :
    (joinedBranches enumerate separator ambient parts values scope).Writes names scope := by
  induction values generalizing scope parts with
  | nil => exact .single_self _
  | cons value values ih =>
    obtain ⟨hvalue, hvalues⟩ := List.forall_mem_cons.1 h
    exact .bind ((henumerate value scope ambient).mono hvalue) fun first => ih hvalues _

/-- A variant binds names of the options of a choice. -/
theorem variantBranches_writes {options : List (Weighted Command)} {least most : Nat}
    {separator : Text} (h : ∀ option ∈ options, ∀ name, option.value.Assigns name → names name) :
    (variantBranches enumerate options least most separator scope ambient).Writes names scope := by
  unfold variantBranches
  split
  · exact .single_self []
  · refine .forEach fun choice hmem =>
      joinedBranches_writes henumerate separator (fun value hvalue => ?_) []
    obtain ⟨option, hoption, rfl⟩ := List.mem_map.1 ((optionsAt_sublist hmem).subset hvalue)
    exact h option hoption

/-- The name of a wildcard binds the names that it assigns. -/
theorem nameBranches_writes {name : WildcardName Command}
    (h : ∀ part ∈ name.parts, ∀ assigned, part.Assigns assigned → names assigned) :
    (nameBranches enumerate scope ambient name).Writes names scope := by
  cases name with
  | fixed name => exact .single_self name
  | rendered command =>
    exact (henumerate command scope ambient).mono (h command (List.mem_singleton_self _))

/-- A part with a chance binds names of its value in some of its branches. -/
theorem probabilityBranches_writes {chance : Rat} {value : Command}
    (h : ∀ name, value.Assigns name → names name) :
    (probabilityBranches enumerate chance value scope ambient).Writes names scope := by
  refine .forEach fun included _ => ?_
  split
  · exact (henumerate value scope ambient).mono h
  · exact .single_self []

/-- A condition binds names of one of its values, by induction on what is left of it. -/
theorem conditionBranches_writes {branches : List (Guarded Command)} {otherwise : Command}
    (hbranches : ∀ branch ∈ branches, ∀ name, branch.value.Assigns name → names name)
    (hotherwise : ∀ name, otherwise.Assigns name → names name) :
    (conditionBranches enumerate otherwise ambient branches scope).Writes names scope := by
  induction branches generalizing scope with
  | nil => exact (henumerate otherwise scope ambient).mono hotherwise
  | cons branch branches ih =>
    obtain ⟨hbranch, hrest⟩ := List.forall_mem_cons.1 hbranches
    refine .bind ((targetBranches_writes enumerate scope ambient _).mono nofun) fun target => ?_
    split
    · exact (henumerate branch.value target.scope ambient).mono hbranch
    · exact ih hrest

/-- Reading a variable binds names of its default at most. -/
theorem accessBranches_writes {name : Text} {fallback : Option Command}
    (h : ∀ command ∈ fallback.toList, ∀ assigned, command.Assigns assigned → names assigned) :
    (accessBranches enumerate scope ambient name fallback).Writes names scope := by
  have htarget := targetBranches_writes enumerate scope ambient (some name)
  rw [targetBranches] at htarget
  unfold accessBranches
  split
  · next branches hbinding =>
    rw [hbinding] at htarget
    exact htarget.mono nofun
  · cases fallback with
    | some command =>
      exact (henumerate command scope ambient).mono (h command (List.mem_singleton_self _))
    | none => exact .fail _

/-- An assignment binds its name, and names of its value if that is rendered at once. -/
theorem assignmentBranches_writes {name : Text} {value : Command} {overwrite immediate : Bool}
    (hname : names name)
    (hvalue : immediate = true → ∀ assigned, value.Assigns assigned → names assigned) :
    (assignmentBranches enumerate scope ambient name value overwrite immediate).Writes
      names scope := by
  unfold assignmentBranches
  split
  · exact .single_self []
  · split
    · next himmediate =>
      exact .map ((henumerate value scope ambient).mono (hvalue himmediate)) fun branch =>
        .bind hname branch.scope _
    · exact .single (.bind hname scope _)

/-- The branches of a node bind the names that it assigns, and leave the frames around alone. -/
theorem enumerateNode_frames : Enumerator.Frames (enumerateNode env .distinct enumerate) := by
  intro command scope ambient
  have hparts : ∀ inner ∈ command.inPlace, ∀ name, inner.Assigns name → command.Assigns name :=
    fun inner hmem name => .part hmem
  -- an override hands the node to a walk, so the frame of walks is needed beside that of branches
  have hrender := renderWithin_frames env env.depthLimit
  cases command with
  | literal text => exact .single_self text
  | comment text => exact .single_self []
  | sequence children =>
    have hchildren : (product enumerate children scope ambient).Writes _ scope :=
      product_writes henumerate hparts
    -- the frame is stated of the product; the stack of open runs is the same run
    rw [← sequenceBranches_eq_product] at hchildren
    exact hchildren
  | variant label options least most separator sampling =>
    exact byMethod_writes hrender
      (variantBranches_writes henumerate fun option hmem => hparts _ (List.mem_map_of_mem hmem))
  | wildcard label name inlined sampling =>
    refine byMethod_writes hrender ?_
    exact .bind (nameBranches_writes henumerate hparts).distinct fun name =>
      -- candidates are walks of their own scope: nothing that they assign comes back
      (candidateBranches_writes env enumerate inlined ambient name).mono nofun
  | wrap wrapper inner =>
    refine .bind ((henumerate inner scope ambient).mono
      (hparts inner (List.mem_cons_of_mem _ (List.mem_singleton_self _)))) fun inner => ?_
    exact .map ((henumerate wrapper inner.scope ambient).mono (hparts wrapper List.mem_cons_self))
      fun branch => .refl _ branch.scope
  | probability label chance value sampling =>
    exact byMethod_writes hrender
      (probabilityBranches_writes henumerate (hparts value (List.mem_singleton_self _)))
  | condition branches otherwise =>
    exact conditionBranches_writes henumerate
      (fun branch hmem => hparts _ (List.mem_append_left _ (List.mem_map_of_mem hmem)))
      (hparts otherwise (List.mem_append_right _ (List.mem_singleton_self _)))
  | access name fallback => exact accessBranches_writes henumerate hparts
  | assignment name value overwrite immediate =>
    refine assignmentBranches_writes henumerate (.here name value overwrite immediate)
      fun himmediate => ?_
    exact hparts value (by simp [Command.inPlace, himmediate])

end Branches

/-- Branches bind only what their tree assigns, at whatever depth. -/
theorem enumerateWithin_frames (env : Environment) (depth : Nat) :
    Enumerator.Frames (enumerateWithin env .distinct depth) := by
  induction depth with
  | zero => exact fun command scope ambient => .fail .tooDeep
  | succ depth ih => exact enumerateNode_frames ih

/-! ## 5. Whole trees -/

/-- Every name but these reads as before, and the frames around the scope are as they were. -/
structure Scope.KeptBut (names : Text → Prop) (before after : Scope) : Prop where
  lookup : ∀ name, ¬ names name → after.lookup name = before.lookup name
  parents : after.parents = before.parents

/-- A scope that has grown by some names has kept all others. -/
theorem Scope.GrownBy.keptBut {names : Text → Prop} {before after : Scope}
    (h : before.GrownBy names after) : before.KeptBut names after :=
  ⟨fun _ => h.lookup_eq, h.parents_eq⟩

/-- **Rendering changes only the variables that the tree assigns.** Whatever the method, the
session and the text before it, a walk leaves every other name as it was, whether it ends with a
text or with an error, and the frames around the scope too; so does every branch of the
enumeration, which holds the scope that it was given untouched beneath its own entries. And
nothing comes back from what is rendered elsewhere: a walk through the binding of a variable,
through what a condition tests or through the candidate of a wildcard leaves the very scope in
which it began, at whatever depth and on whatever way it ends, as do their branches. -/
theorem rendering_keeps_unassigned (env : Environment) (command : Command) (scope : Scope)
    (ambient : Text) (s : Session) :
    (∀ method : Sampling, scope.KeptBut command.Assigns
      (renderOnce env command method ambient ⟨scope, s⟩).2.scope) ∧
    ((enumerate env command scope ambient s).All fun branch =>
      scope.KeptBut command.Assigns branch.scope ∧ scope.GrownBy command.Assigns branch.scope) ∧
    (∀ (depth : Nat) (method : Sampling),
      (∀ name, (renderBinding (renderWithin env depth) method ambient name ⟨scope, s⟩).2.scope =
        scope) ∧
      (∀ key, (renderTarget (renderWithin env depth) method ambient key ⟨scope, s⟩).2.scope =
        scope) ∧
      ∀ inlined, (Walk.within (inlineFrame scope inlined)
        (renderWithin env depth command method ambient) ⟨scope, s⟩).2.scope = scope) ∧
    ∀ depth : Nat,
      (∀ key, (targetBranches (enumerateWithin env .distinct depth) scope ambient key s).All
        (·.scope = scope)) ∧
      ∀ inlined name, (candidateBranches env (enumerateWithin env .distinct depth) inlined ambient
        ⟨name, scope⟩ s).All (·.scope = scope) := by
  refine ⟨fun method => ?_, ?_, fun depth method => ⟨?_, ?_, fun inlined => ?_⟩,
    fun depth => ⟨?_, ?_⟩⟩
  · exact (renderWithin_frames env env.depthLimit command method ambient ⟨scope, s⟩).keptBut
  · exact (enumerateWithin_frames env env.depthLimit command scope ambient s).mono
      fun branch hgrown => ⟨hgrown.keptBut, hgrown⟩
  · exact fun name => renderBinding_scope (renderWithin_frames env depth) method ambient name _
  · exact fun key => renderTarget_scope (renderWithin_frames env depth) method ambient key _
  · exact (renderWithin_frames env depth command method ambient).scope_within _ ⟨scope, s⟩
  · exact fun key => (targetBranches_writes _ scope ambient key s).mono fun _ h => h.eq_of_none
  · exact fun inlined name => (candidateBranches_writes env _ inlined ambient ⟨name, scope⟩ s).mono
      fun _ h => h.eq_of_none

end PromptTemplate
