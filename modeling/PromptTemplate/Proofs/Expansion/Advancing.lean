/-
`Advancing.lean` -- draws are never taken back.

How many draws a session counts only ever grows, on whatever way a walk ends and between any two
branches of an enumeration. A run may be resumed with another session than it left, so its
invariant speaks of both: what comes next counts no fewer draws than the session that the run is
resumed with (`Run.Advances`). It says nothing of scopes or of methods, so the rules of the nodes
need no hypothesis on trees.
-/
import PromptTemplate.Expansion.Enumeration
import PromptTemplate.Proofs.Expansion.Candidates
import PromptTemplate.Proofs.Expansion.Following

set_option autoImplicit false

namespace PromptTemplate

/-! ## 1. Choices -/

/-- A whole number takes one draw or none. -/
theorem le_randomInt (round : Rounding) (source : Source) (drawn : Nat) (least most : Number) :
    drawn ≤ (randomInt round source drawn least most).2 := by
  unfold randomInt
  split
  · exact Nat.le_refl drawn
  · exact Nat.le_succ drawn

/-- A choice by weights takes one draw or none. -/
theorem le_weightedIndex (round : Rounding) (source : Source) (drawn : Nat)
    (weights : List Number) :
    drawn ≤ (weightedIndex round source drawn weights).2 := by
  unfold weightedIndex
  dsimp only
  split
  · exact Nat.le_refl drawn
  · split
    · exact Nat.le_succ drawn
    · exact Nat.le_succ drawn

/-! ## 2. Walks -/

/-- However the walk ends, no draw is taken back. -/
def Walk.Advances {α : Type} (walk : Walk α) : Prop :=
  ∀ w : Walking, w.session.drawn ≤ (walk w).2.session.drawn

/-- No walk over a tree takes a draw back. -/
def Renderer.Advances (render : Renderer) : Prop :=
  ∀ (command : Command) (method : Sampling) (ambient : Text),
    (render command method ambient).Advances

namespace Walk.Advances

variable {α β : Type} {walk : Walk α}

/-- A walk that takes no draw. -/
theorem of_drawn (h : ∀ w, (walk w).2.session.drawn = w.session.drawn) : walk.Advances :=
  fun w => Nat.le_of_eq (h w).symm

/-- What needs no session leaves the draws alone. -/
theorem pure (a : α) : (Pure.pure a : Walk α).Advances := of_drawn fun _ => rfl

/-- Steps one after another never give a draw back if none of them does. -/
theorem bind (h : walk.Advances) {next : α → Walk β} (hnext : ∀ a, (next a).Advances) :
    (walk >>= next).Advances := by
  intro w
  have hfirst := h w
  rw [Walk.bind_apply]
  split
  · next a after hrun =>
    rw [hrun] at hfirst
    exact Nat.le_trans hfirst (hnext a after)
  · next error after hrun =>
    rw [hrun] at hfirst
    exact hfirst

/-- Picking takes no draw. -/
theorem pick (members : List α) (index : Option Nat) : (Walk.pick members index).Advances := by
  unfold Walk.pick
  split
  · exact of_drawn fun _ => rfl
  · exact of_drawn fun _ => rfl

/-- A rotation takes no draw. -/
theorem turn (label : Label) (size : Nat) : (Walk.turn label size).Advances := of_drawn fun _ => rfl

/-- One draw is taken. -/
theorem draw (env : Environment) : (Walk.draw env).Advances := fun w => Nat.le_succ w.session.drawn

/-- A whole number in bounds takes at most one. -/
theorem drawInt (env : Environment) (least most : Nat) : (Walk.drawInt env least most).Advances :=
  fun w => le_randomInt env.round env.source w.session.drawn (.ofNat least) (.ofNat most)

/-- So does an option by weight. -/
theorem drawWeighted (env : Environment) (weights : List Rat) :
    (Walk.drawWeighted env weights).Advances :=
  fun w => le_weightedIndex env.round env.source w.session.drawn (weights.map .finite)

/-- Asking for the candidates of a wildcard takes no draw. -/
theorem candidates (env : Environment) (name : Text) (method : Sampling) :
    (Walk.ofSession (Session.wildcardCandidates env name method)).Advances :=
  of_drawn fun w => Session.drawn_wildcardCandidates env name method w.session

/-- A frame around a walk takes no draw. -/
theorem within (h : walk.Advances) (frame : Frame) : (Walk.within frame walk).Advances :=
  fun w => h { w with scope := w.scope.push frame }

end Walk.Advances

section Walks

variable {env : Environment} {render : Renderer} (hrender : render.Advances)

/-- The index of a candidate is drawn or comes round. -/
theorem candidateIndex_advances (env : Environment) (label : Label) (method : Sampling)
    (size : Nat) :
    (candidateIndex env label method size).Advances := by
  unfold candidateIndex
  split
  · exact .bind (.draw env) fun _ => .pure _
  · exact .bind (.turn label size) fun _ => .pure _

/-- Whether a part is included is drawn, comes round, or is settled. -/
theorem isIncluded_advances (env : Environment) (label : Label) (chance : Rat) (method : Sampling) :
    (isIncluded env label chance method).Advances := by
  unfold isIncluded
  split
  · exact .bind (.draw env) fun _ => .pure _
  · exact .bind (.turn label _) fun _ => .pick _ _

include hrender

/-- The induction is on the nodes; each of them advances. -/
theorem renderSequence_advances (method : Sampling) (children : List Command) (ambient : Text) :
    (renderSequence render method children ambient).Advances := by
  induction children generalizing ambient with
  | nil => exact .pure []
  | cons child children ih =>
    exact .bind (hrender child method ambient) fun first => .bind (ih _) fun rest => .pure _

/-- The same for several values, whose texts are kept apart. -/
theorem renderEach_advances (method : Sampling) (ambient : Text) (values : List Command) :
    (renderEach render method ambient values).Advances := by
  induction values with
  | nil => exact .pure []
  | cons value values ih =>
    exact .bind (hrender value method ambient) fun first => .bind ih fun rest => .pure _

/-- A loop of draws, by induction on how often it runs. -/
theorem renderDrawn_advances (options : List (Weighted Command)) (ambient : Text) (count : Nat) :
    (renderDrawn env render options ambient count).Advances := by
  induction count with
  | zero => exact .pure []
  | succ count ih =>
    refine .bind (.drawWeighted env _) fun index => .bind (.pick options index) fun option => ?_
    exact .bind (hrender option.value .random ambient) fun first => .bind ih fun rest => .pure _

/-- A variant draws, rotates, or does both for the options that it picks. -/
theorem renderVariant_advances (label : Label) (options : List (Weighted Command))
    (least most : Nat) (separator : Text) (method : Sampling) (ambient : Text) :
    (renderVariant env render label options least most separator method ambient).Advances := by
  unfold renderVariant
  dsimp only
  split
  · split
    · exact .pure []
    · refine .bind (.drawInt env least most) fun count => ?_
      exact .bind (renderDrawn_advances hrender options ambient _) fun parts => .pure _
  · split
    · exact .pure []
    · refine .bind (.turn label _) fun place => .bind (.pick _ _) fun choice => ?_
      exact .bind (renderEach_advances hrender method ambient _) fun parts => .pure _

/-- Reading a binding renders its command in a frame of its own. -/
theorem renderBinding_advances (method : Sampling) (ambient name : Text) :
    (renderBinding render method ambient name).Advances := by
  refine .bind (.of_drawn fun _ => rfl) fun binding => ?_
  match binding with
  | none => exact .pure none
  | some (.evaluated text) => exact .pure (some text)
  | some (.deferred command previous) =>
    exact .bind ((hrender command method ambient).within _) fun text => .pure _

/-- The target of a condition is its key or the text of the binding. -/
theorem renderTarget_advances (method : Sampling) (ambient : Text) (key : Option Text) :
    (renderTarget render method ambient key).Advances := by
  cases key with
  | none => exact .pure ambient
  | some key => exact .bind (renderBinding_advances hrender method ambient key) fun text => .pure _

/-- A wildcard renders its name, then one of the candidates. -/
theorem renderWildcard_advances (label : Label) (name : WildcardName Command)
    (inlined : List (Text × Command)) (sampling : Option Sampling) (method : Sampling)
    (ambient : Text) :
    (renderWildcard env render label name inlined sampling method ambient).Advances := by
  have hname : (renderName render method ambient name).Advances := by
    cases name with
    | fixed name => exact .pure name
    | rendered command => exact hrender command method ambient
  refine .bind hname fun name => .bind (.candidates env name _) fun candidates => ?_
  split
  · exact .pure []
  · refine .bind (candidateIndex_advances env label _ _) fun index => ?_
    refine .bind (.pick candidates index) fun candidate w => ?_
    exact (hrender candidate _ ambient).within _ w

/-- A part with a chance is rendered after it is decided on. -/
theorem renderProbability_advances (label : Label) (chance : Rat) (value : Command)
    (method : Sampling) (ambient : Text) :
    (renderProbability env render label chance value method ambient).Advances := by
  refine .bind (isIncluded_advances env label chance method) fun included => ?_
  split
  · exact hrender value method ambient
  · exact .pure []

/-- Of a condition one value is rendered, after as many targets as it takes. -/
theorem renderCondition_advances (method : Sampling) (ambient : Text) (otherwise : Command)
    (branches : List (Guarded Command)) :
    (renderCondition render method ambient otherwise branches).Advances := by
  induction branches with
  | nil => exact hrender otherwise method ambient
  | cons branch branches ih =>
    refine .bind (renderTarget_advances hrender method ambient _) fun target => ?_
    split
    · exact hrender branch.value method ambient
    · exact ih

/-- Reading a variable renders its binding, its default or nothing. -/
theorem renderAccess_advances (method : Sampling) (ambient name : Text)
    (fallback : Option Command) :
    (renderAccess render method ambient name fallback).Advances := by
  refine .bind (renderBinding_advances hrender method ambient name) fun text => ?_
  match text, fallback with
  | some text, _ => exact .pure text
  | none, some command => exact hrender command method ambient
  | none, none => exact .of_drawn fun _ => rfl

/-- An assignment renders its value at once or not at all. -/
theorem renderAssignment_advances (method : Sampling) (ambient name : Text) (value : Command)
    (overwrite immediate : Bool) :
    (renderAssignment render method ambient name value overwrite immediate).Advances := by
  have hbind : ∀ binding, (Walk.bindName name binding).Advances := fun _ => .of_drawn fun _ => rfl
  refine .bind (.of_drawn fun _ => rfl) fun earlier => ?_
  split
  · exact .pure []
  · split
    · refine .bind (hrender value method ambient) fun text => ?_
      exact .bind (hbind _) fun _ => .pure []
    · exact .bind (hbind _) fun _ => .pure []

/-- So does every node, if what is rendered in it does. -/
theorem renderNode_advances : Renderer.Advances (renderNode env render) := by
  intro command method ambient
  cases command with
  | literal text => exact .pure text
  | comment text => exact .pure []
  | sequence children => exact renderSequence_advances hrender method children ambient
  | variant label options least most separator sampling =>
    exact renderVariant_advances hrender label options least most separator _ ambient
  | wildcard label name inlined sampling =>
    exact renderWildcard_advances hrender label name inlined sampling method ambient
  | wrap wrapper inner =>
    refine .bind (hrender inner method ambient) fun inner => ?_
    exact .bind (hrender wrapper method ambient) fun wrapper => .pure _
  | probability label chance value sampling =>
    exact renderProbability_advances hrender label chance value _ ambient
  | condition branches otherwise =>
    exact renderCondition_advances hrender method ambient otherwise branches
  | access name fallback => exact renderAccess_advances hrender method ambient name fallback
  | assignment name value overwrite immediate =>
    exact renderAssignment_advances hrender method ambient name value overwrite immediate

end Walks

/-- No walk takes a draw back, at whatever depth. -/
theorem renderWithin_advances (env : Environment) (depth : Nat) :
    Renderer.Advances (renderWithin env depth) := by
  induction depth with
  | zero => exact fun command method ambient => .of_drawn fun _ => rfl
  | succ depth ih => exact renderNode_advances ih

/-! ## 3. Branches -/

/-- The run counts at least so many draws where it ends or yields, and wherever it is resumed no
fewer than there. -/
def Run.Advances : Run → Nat → Prop
  | .done s, drawn | .fail _ s, drawn => drawn ≤ s.drawn
  | .yield _ s rest, drawn => drawn ≤ s.drawn ∧ ∀ t : Session, (rest t).Advances t.drawn

namespace Run.Advances

variable {run : Run} {drawn earlier : Nat}

/-- What is not behind a later point is not behind an earlier one. -/
theorem mono (h : run.Advances drawn) (hle : earlier ≤ drawn) : run.Advances earlier := by
  cases run with
  | done s => exact Nat.le_trans hle h
  | fail error s => exact Nat.le_trans hle h
  | yield branch s rest => exact ⟨Nat.le_trans hle h.1, h.2⟩

/-- A run that goes on with branches that advance, advances. -/
theorem append (h : run.Advances drawn) {next : Branches} (hnext : ∀ s, (next s).Advances s.drawn) :
    (run.append next).Advances drawn := by
  induction run generalizing drawn with
  | done s => exact (hnext s).mono h
  | fail error s => exact h
  | yield branch s rest ih => exact ⟨h.1, fun t => ih t (h.2 t)⟩

/-- For each branch of a run, what it leads to starts where the run stands. -/
theorem bind (h : run.Advances drawn) {f : Branch → Branches}
    (hf : ∀ branch s, (f branch s).Advances s.drawn) : (run.bind f).Advances drawn := by
  induction run generalizing drawn with
  | done s => exact h
  | fail error s => exact h
  | yield branch s rest ih =>
    exact Run.Advances.append ((hf branch s).mono h.1) fun t => ih t (h.2 t)

/-- Going past a branch resumes the run with the session that it left. -/
theorem distinct (h : run.Advances drawn) (seen : List Text) :
    (run.distinct seen).Advances drawn := by
  induction run generalizing drawn seen with
  | done s => exact h
  | fail error s => exact h
  | yield branch s rest ih =>
    rw [Run.distinct]
    split
    · exact ih s ((h.2 s).mono h.1) seen
    · exact ⟨h.1, fun t => ih t (h.2 t) _⟩

end Run.Advances

/-- From whatever session, no branch takes a draw back. -/
def Branches.Advances (branches : Branches) : Prop := ∀ s : Session, (branches s).Advances s.drawn

/-- No branch of a tree takes a draw back. -/
def Enumerator.Advances (enumerate : Enumerator) : Prop :=
  ∀ (command : Command) (scope : Scope) (ambient : Text), (enumerate command scope ambient).Advances

namespace Branches.Advances

variable {branches : Branches}

/-- One branch takes no draw. -/
theorem single (branch : Branch) : (Branches.single branch).Advances :=
  fun s => ⟨Nat.le_refl s.drawn, fun t => Nat.le_refl t.drawn⟩

/-- An error takes none either. -/
theorem fail (error : WalkError) : (Branches.fail error).Advances := fun s => Nat.le_refl s.drawn

/-- What every branch leads to advances, so all of it does. -/
theorem bind (h : branches.Advances) {f : Branch → Branches} (hf : ∀ branch, (f branch).Advances) :
    (branches.bind f).Advances := fun s => (h s).bind hf

/-- Changing the branches does not touch the session. -/
theorem map (h : branches.Advances) (f : Branch → Branch) : (branches.map f).Advances := by
  rw [← Branches.bind_single]
  exact h.bind fun branch => single (f branch)

/-- Leaving branches out does not either. -/
theorem distinct (h : branches.Advances) : branches.distinct.Advances := fun s => (h s).distinct []

/-- Members one after another, by induction on their list. -/
theorem forEach {α : Type} {f : α → Branches} (h : ∀ a, (f a).Advances) (members : List α) :
    (Branches.forEach f members).Advances := by
  induction members with
  | nil => exact fun s => Nat.le_refl s.drawn
  | cons a members ih => exact fun s => (h a s).append ih

/-- The one branch of a walk. -/
theorem walkBranch {render : Renderer} (hrender : render.Advances) (command : Command)
    (method : Sampling) (scope : Scope) (ambient : Text) :
    (PromptTemplate.walkBranch render command method scope ambient).Advances := by
  intro s
  have hwalk := hrender command method ambient ⟨scope, s⟩
  unfold PromptTemplate.walkBranch
  split
  · next text w hrun =>
    rw [hrun] at hwalk
    exact ⟨hwalk, fun t => Nat.le_refl t.drawn⟩
  · next error w hrun =>
    rw [hrun] at hwalk
    exact hwalk

/-- A node that is sampled walks; otherwise it is enumerated. -/
theorem byMethod {render : Renderer} (hrender : render.Advances) (h : branches.Advances)
    (command : Command) (sampling : Option Sampling) (scope : Scope) (ambient : Text) :
    (PromptTemplate.byMethod render command sampling scope ambient branches).Advances := by
  unfold PromptTemplate.byMethod
  split
  · exact h
  · exact h
  · exact walkBranch hrender command _ scope ambient

end Branches.Advances

section Branches

variable {env : Environment} {enumerate : Enumerator} (henumerate : enumerate.Advances)
include henumerate

/-- Nodes one after another, by induction on their list. -/
theorem product_advances (children : List Command) (scope : Scope) (ambient : Text) :
    (product enumerate children scope ambient).Advances := by
  induction children generalizing scope ambient with
  | nil => exact .single _
  | cons child children ih =>
    exact .bind (henumerate child scope ambient) fun first => .map (ih _ _) _

/-- Values that are joined, by induction on those that are left. -/
theorem joinedBranches_advances (separator ambient : Text) (parts : List Text)
    (values : List Command) (scope : Scope) :
    (joinedBranches enumerate separator ambient parts values scope).Advances := by
  induction values generalizing parts scope with
  | nil => exact .single _
  | cons value values ih => exact .bind (henumerate value scope ambient) fun branch => ih _ _

/-- A variant goes through its choices. -/
theorem variantBranches_advances (options : List (Weighted Command)) (least most : Nat)
    (separator : Text) (scope : Scope) (ambient : Text) :
    (variantBranches enumerate options least most separator scope ambient).Advances := by
  unfold variantBranches
  split
  · exact .single _
  · exact .forEach (fun choice => joinedBranches_advances henumerate separator ambient [] _ scope) _

/-- The name of a wildcard is a text or is enumerated. -/
theorem nameBranches_advances (scope : Scope) (ambient : Text) (name : WildcardName Command) :
    (nameBranches enumerate scope ambient name).Advances := by
  cases name with
  | fixed name => exact .single _
  | rendered command => exact henumerate command scope ambient

/-- Candidates are looked up, then each is enumerated in a frame of inline variables. -/
theorem candidateBranches_advances (inlined : List (Text × Command)) (ambient : Text)
    (name : Branch) :
    (candidateBranches env enumerate inlined ambient name).Advances := by
  intro s
  -- all that a lookup can draw is drawn before the first branch, whether or not it succeeds
  have hasked := Session.drawn_wildcardCandidates env name.text .combinatorial s
  unfold candidateBranches
  split
  · next error after hrun =>
    rw [hrun] at hasked
    exact Nat.le_of_eq hasked.symm
  · next after hrun =>
    rw [hrun] at hasked
    exact (Branches.Advances.single _ after).mono (Nat.le_of_eq hasked.symm)
  · next candidates after _ hrun =>
    rw [hrun] at hasked
    refine Run.Advances.mono (?_ : Run.Advances _ after.drawn) (Nat.le_of_eq hasked.symm)
    exact Branches.Advances.forEach (fun candidate =>
      .map (henumerate candidate _ ambient) _) _ after

/-- The branches of a binding are those of its command. -/
theorem bindingBranches_advances (scope : Scope) (ambient name : Text) :
    ∀ branches ∈ bindingBranches enumerate scope ambient name, branches.Advances := by
  intro branches hbranches
  unfold bindingBranches at hbranches
  split at hbranches
  · cases hbranches
  · cases hbranches
    exact .single _
  · cases hbranches
    exact .map (henumerate _ _ ambient) _

/-- The target of a condition has the branches of the binding, or one. -/
theorem targetBranches_advances (scope : Scope) (ambient : Text) (key : Option Text) :
    (targetBranches enumerate scope ambient key).Advances := by
  cases key with
  | none => exact .single _
  | some key =>
    rw [targetBranches]
    cases hbinding : bindingBranches enumerate scope ambient key with
    | none => exact .single _
    | some branches => exact bindingBranches_advances henumerate scope ambient key branches hbinding

/-- A part with a chance has those of the value, then none or the other way round. -/
theorem probabilityBranches_advances (chance : Rat) (value : Command) (scope : Scope)
    (ambient : Text) :
    (probabilityBranches enumerate chance value scope ambient).Advances := by
  refine .forEach (fun included => ?_) _
  split
  · exact henumerate value scope ambient
  · exact .single _

/-- A condition goes on from every target to the next branch or to a value. -/
theorem conditionBranches_advances (otherwise : Command) (ambient : Text)
    (branches : List (Guarded Command)) (scope : Scope) :
    (conditionBranches enumerate otherwise ambient branches scope).Advances := by
  induction branches generalizing scope with
  | nil => exact henumerate otherwise scope ambient
  | cons branch branches ih =>
    refine .bind (targetBranches_advances henumerate scope ambient _) fun target => ?_
    split
    · exact henumerate branch.value target.scope ambient
    · exact ih target.scope

/-- Reading a variable has the branches of the binding or of the default. -/
theorem accessBranches_advances (scope : Scope) (ambient name : Text) (fallback : Option Command) :
    (accessBranches enumerate scope ambient name fallback).Advances := by
  unfold accessBranches
  split
  · next branches hbinding =>
    exact bindingBranches_advances henumerate scope ambient name branches hbinding
  · cases fallback with
    | some command => exact henumerate command scope ambient
    | none => exact .fail _

/-- An assignment has those of its value, or one. -/
theorem assignmentBranches_advances (scope : Scope) (ambient name : Text) (value : Command)
    (overwrite immediate : Bool) :
    (assignmentBranches enumerate scope ambient name value overwrite immediate).Advances := by
  unfold assignmentBranches
  split
  · exact .single _
  · split
    · exact .map (henumerate value scope ambient) _
    · exact .single _

/-- So do the branches of every node, if those of the nodes in it do. -/
theorem enumerateNode_advances {kept : Branches → Branches}
    (hkept : ∀ branches : Branches, branches.Advances → (kept branches).Advances) :
    Enumerator.Advances (enumerateNode env kept enumerate) := by
  intro command scope ambient
  -- nodes under an override are walked, so that walks only draw further is used as well
  have hrender := renderWithin_advances env env.depthLimit
  cases command with
  | literal text => exact .single _
  | comment text => exact .single _
  | sequence children =>
    have hchildren := product_advances henumerate children scope ambient
    rw [← sequenceBranches_eq_product] at hchildren
    exact hchildren
  | variant label options least most separator sampling =>
    exact .byMethod hrender
      (variantBranches_advances henumerate options least most separator scope ambient) _ _ _ _
  | wildcard label name inlined sampling =>
    refine .byMethod hrender ?_ _ _ _ _
    exact .bind (hkept _ (nameBranches_advances henumerate scope ambient name))
      (candidateBranches_advances henumerate inlined ambient)
  | wrap wrapper inner =>
    exact .bind (henumerate inner scope ambient) fun inner =>
      .map (henumerate wrapper inner.scope ambient) _
  | probability label chance value sampling =>
    exact .byMethod hrender (probabilityBranches_advances henumerate chance value scope ambient) _ _
      _ _
  | condition branches otherwise =>
    exact conditionBranches_advances henumerate otherwise ambient branches scope
  | access name fallback => exact accessBranches_advances henumerate scope ambient name fallback
  | assignment name value overwrite immediate =>
    exact assignmentBranches_advances henumerate scope ambient name value overwrite immediate

end Branches

/-- No branch takes a draw back, at whatever depth. -/
theorem enumerateWithin_advances (env : Environment) (depth : Nat) :
    Enumerator.Advances (enumerateWithin env .distinct depth) := by
  induction depth with
  | zero => exact fun command scope ambient => .fail .tooDeep
  | succ depth ih => exact enumerateNode_advances ih fun branches h => h.distinct

end PromptTemplate
