/-
`Choosing.lean` -- nodes that choose, compared by their choices.

The enumeration takes every choice of a node, and a walk takes one. So a comparison passes
over such a node if it passes from all members of a list to the walk that takes one of them
(`Choosing`), whether by turns or by draws. Two things have to hold of every node in reach.
None may force another method than the walk's, because the enumeration has only one branch
there. And rendering the name of a wildcard may bind nothing: of several branches with one
name the enumeration keeps the first, and another one may have left another scope.
-/
import PromptTemplate.Proofs.Expansion.Candidates
import PromptTemplate.Proofs.Expansion.Choices
import PromptTemplate.Proofs.Expansion.Rules

set_option autoImplicit false

namespace PromptTemplate

/-! ## 1. Properties of all nodes -/

/-- Every node in reach has the property, and stays so; nodes that bind nothing leave the
scope as it is. -/
def Contract.everywhere (p : Command → Prop) : Contract where
  admits commands scope := (∀ command ∈ commands, command.Everywhere p) ∧ scope.Everywhere p
  reads _ := True
  defers _ value scope := value.Everywhere p ∧ scope.Everywhere p
  settles commands before after := after.Everywhere p ∧
    ((∀ command ∈ commands, command.Everywhere Command.BindsNothing) → after = before)
  sub h hsub := ⟨fun command hmem => h.1 command (hsub.subset hmem), h.2⟩
  tail h hfirst := ⟨fun command hmem => h.1 command (List.mem_cons_of_mem _ hmem), hfirst.1⟩
  binding h _ hlookup := by
    have hbinding := h.2 _ _ hlookup
    refine ⟨List.forall_mem_singleton.2 ?_, h.2.resolving _ hbinding⟩
    cases hbinding with
    | deferred _ _ value _ => exact value
  refl h := ⟨h.2, fun _ => rfl⟩
  cons hfirst hrest := ⟨hrest.1, fun hall =>
    (hrest.2 fun command hmem => hall command (List.mem_cons_of_mem _ hmem)).trans
      (hfirst.2 (List.forall_mem_singleton.2 (hall _ List.mem_cons_self)))⟩
  node h hsub := ⟨h.1, fun hnode => h.2 fun part hmem =>
    (hnode _ (List.mem_singleton_self _)).of_part (hsub.subset hmem)⟩
  evaluate h := ⟨h.1.bind (.evaluated _) _, fun hnode =>
    (hnode _ (List.mem_singleton_self _)).here.elim⟩
  defer h := ⟨h.2.bind (.deferred _ _ h.1 fun binding => h.2 _ binding) _,
    fun hnode => (hnode _ (List.mem_singleton_self _)).here.elim⟩

/-- A node with the property everywhere may do all that it does. -/
theorem Contract.everywhere_enters {p : Command → Prop} {command : Command} {scope : Scope}
    (h : (everywhere p).admits command.parts scope) : (everywhere p).Enters command scope :=
  enters_of_parts (fun _ => trivial)
    (fun _ value _ h => ⟨h.1 value (List.mem_singleton_self _), h.2⟩) h

/-- A method of a node that leaves the enumeration all branches and a walk by some method
its own, with the candidates that the enumeration has. -/
structure Unforced (policy : EmptyPolicy) (method : Sampling) (sampling : Option Sampling) :
    Prop where
  all : sampling = none ∨ sampling = some .combinatorial
  passed : (sampling.getD method).walked = method
  alike : policy.refuses .combinatorial = policy.refuses (sampling.getD method)

/-! ## 2. Comparisons of choices -/

/-- A comparison that passes over the choices of walks by one method. -/
structure Comparison.Choosing {ι : Type} (c : Comparison ι) (env : Environment)
    (environments : ι → Environment) (tree : Text → Except WalkError Command) (method : Sampling) :
    Prop where
  /-- Of branches that are an error nothing is asked. -/
  fail : ∀ {settled : Scope → Prop} {scope : Scope} (error : WalkError) (walk : ι → Walk Text),
    c.holds settled scope (.fail error) walk
  /-- Leaving out repeated texts loses nothing where all branches leave the same scope. -/
  distinct : ∀ {scope : Scope} {branches : Branches} {walk : ι → Walk Text},
    c.holds (· = scope) scope branches walk → c.holds (· = scope) scope branches.distinct walk
  /-- Both ask for the candidates of a wildcard. -/
  asking : ∀ {settled : Scope → Prop} {scope : Scope} {name : Text} {other : Sampling}
    {f : List Command → Branches} {next : ι → List Command → Walk Text},
    env.policy.refuses .combinatorial = env.policy.refuses other →
    (∀ found, wildcardTrees env tree name .combinatorial = .ok found →
      c.holds settled scope (f found) fun i => next i found) →
    c.holds settled scope
      (Branches.ofSession (Session.wildcardCandidates env name .combinatorial) f) fun i =>
      Walk.ofSession (Session.wildcardCandidates (environments i) name other) >>= next i
  /-- The walk takes one of several candidates. -/
  candidate : ∀ {settled : Scope → Prop} {scope : Scope} {members : List Command}
    {f : Command → Branches} {next : ι → Command → Walk Text} (label : Label), members ≠ [] →
    (∀ member ∈ members, c.holds settled scope (f member) fun i => next i member) →
    c.holds settled scope (Branches.forEach f members) fun i =>
      candidateIndex (environments i) label method members.length >>= fun index =>
        Walk.pick members index >>= next i
  /-- The walk takes one of the outcomes of a chance. -/
  outcome : ∀ {settled : Scope → Prop} {scope : Scope} {f : Bool → Branches}
    {next : ι → Bool → Walk Text} (label : Label) (chance : Rat),
    (∀ included ∈ probabilityChoices (.finite chance),
      c.holds settled scope (f included) fun i => next i included) →
    c.holds settled scope (Branches.forEach f (probabilityChoices (.finite chance))) fun i =>
      isIncluded (environments i) label chance method >>= next i

namespace Comparison.Choosing

variable {ι : Type} {c : Comparison ι} {env : Environment} {environments : ι → Environment}
  {tree : Text → Except WalkError Command} {method : Sampling} {p : Command → Prop}
  {enumerate : Enumerator} {render : ι → Renderer} {scope : Scope}

section Parts

variable (hchoosing : c.Choosing env environments tree method)
  (hsound : c.Sound (.everywhere p) enumerate render method) (hscope : scope.Everywhere p)
include hchoosing hsound hscope

/-- A part left out or put in. -/
theorem probability (label : Label) (chance : Rat) {value : Command} (sampling : Option Sampling)
    (hvalue : value.Everywhere p) (ambient : Text) :
    c.holds ((Contract.everywhere p).settles [.probability label chance value sampling] scope) scope
      (probabilityBranches enumerate chance value scope ambient) fun i =>
      renderProbability (environments i) (render i) label chance value method ambient := by
  unfold probabilityBranches renderProbability
  have hadmits : (Contract.everywhere p).admits [value] scope :=
    ⟨List.forall_mem_singleton.2 hvalue, hscope⟩
  refine hchoosing.outcome label chance fun included _ => ?_
  cases included with
  | true =>
    exact c.mono (hsound value scope ambient hadmits) fun after hafter =>
      (Contract.everywhere p).node hafter (List.Subperm.refl _)
  | false => exact c.pure ((Contract.everywhere p).settles_self hadmits) []

/-- The name of a wildcard, each text once. A rendered name binds nothing, so the
branches that are left out leave no other scope than those that stay. -/
theorem name {name : WildcardName Command}
    (hname : ∀ command ∈ name.parts, command.Everywhere p ∧ command.Everywhere Command.BindsNothing)
    (ambient : Text) :
    c.holds (· = scope) scope (nameBranches enumerate scope ambient name).distinct fun i =>
      renderName (render i) method ambient name := by
  cases name with
  | fixed name => exact hchoosing.distinct (c.pure_same scope name)
  | rendered command =>
    obtain ⟨hcommand, hpure⟩ := hname command (List.mem_singleton_self _)
    have hrendered := hsound command scope ambient ⟨List.forall_mem_singleton.2 hcommand, hscope⟩
    exact hchoosing.distinct (c.mono hrendered fun after hafter =>
      hafter.2 (List.forall_mem_singleton.2 hpure))

omit hchoosing hsound hscope in
/-- The branches for the candidates of a wildcard, with the session's part taken out. -/
theorem candidateBranches_eq (env : Environment) (inlined : List (Text × Command))
    (ambient name : Text) :
    candidateBranches env enumerate inlined ambient ⟨name, scope⟩ =
      Branches.ofSession (Session.wildcardCandidates env name .combinatorial) fun found =>
        if found.isEmpty then .single ⟨[], scope⟩
        else Branches.forEach (fun candidate =>
          (enumerate candidate (scope.push (inlineFrame scope inlined)) ambient).map fun branch =>
            ⟨branch.text, scope⟩) found := by
  funext s
  unfold candidateBranches Branches.ofSession
  rcases Session.wildcardCandidates env name .combinatorial s with ⟨result, after⟩
  cases result with
  | error error => rfl
  | ok found => cases found <;> rfl

/-- A wildcard: its names, and the candidates of each. The walk may ask for candidates
by another method than the enumeration, and it makes the frame of the inline variables
from a scope that only agrees with the one here. -/
theorem wildcard
    (hcandidates : ∀ name found, wildcardTrees env tree name .combinatorial = .ok found →
      ∀ candidate ∈ found, candidate.Everywhere p)
    {name : WildcardName Command}
    (hname : ∀ command ∈ name.parts, command.Everywhere p ∧ command.Everywhere Command.BindsNothing)
    {inlined : List (Text × Command)} (hinlined : ∀ v ∈ inlined, v.2.Everywhere p)
    {sampling : Option Sampling} (hunforced : Unforced env.policy method sampling)
    (label : Label) (ambient : Text) :
    c.holds (· = scope) scope
      ((nameBranches enumerate scope ambient name).distinct.bind
        (candidateBranches env enumerate inlined ambient)) fun i =>
      renderWildcard (environments i) (render i) label name inlined sampling method ambient := by
  refine c.bind (hchoosing.name hsound hscope hname ambient) fun found hfound => ?_
  -- the branch of the name has the scope we began in
  obtain ⟨text, after⟩ := found
  cases hfound
  simp only [candidateBranches_eq, hunforced.passed]
  refine hchoosing.asking hunforced.alike fun found hfound => ?_
  by_cases hempty : found.isEmpty = true
  · simp only [if_pos hempty]
    exact c.pure_same after []
  · simp only [if_neg hempty]
    refine hchoosing.candidate label (by simpa using hempty) fun candidate hmem => ?_
    have hcandidate := hsound candidate _ ambient
      ⟨List.forall_mem_singleton.2 (hcandidates text found hfound candidate hmem),
        hscope.inlining hinlined⟩
    -- whatever a candidate binds stays in its frame: the scope around it is `after`
    have hwithin : c.holds (· = after) after _ _ := c.within hcandidate rfl
    refine c.congr hwithin fun i w hw => ?_
    rw [hw.inlineFrame_eq]

end Parts

/-! ## 3. The recursion -/

/-- A node that is not forced has all its branches enumerated. -/
theorem byMethod {settled : Scope → Prop} {origin : Scope} {all : Branches} {walk : ι → Walk Text}
    (h : c.holds settled origin all walk) {sampling : Option Sampling}
    (hsampling : sampling = none ∨ sampling = some .combinatorial) {render : Renderer}
    {command : Command} {ambient : Text} :
    c.holds settled origin (PromptTemplate.byMethod render command sampling scope ambient all)
      walk := by
  rcases hsampling with rfl | rfl
  · exact h
  · exact h

/-- What has to hold of a node, besides how its choices compare. -/
structure Fits (policy : EmptyPolicy) (method : Sampling) (command : Command) : Prop where
  unforced : Unforced policy method command.declared
  pureName : ∀ label name inlined sampling,
    command = .wildcard label (.rendered name) inlined sampling →
    name.Everywhere Command.BindsNothing

section Recursion

variable (hchoosing : c.Choosing env environments tree method)
  (hfits : ∀ command, p command → Fits env.policy method command)
  (hcandidates : ∀ name found, wildcardTrees env tree name .combinatorial = .ok found →
    ∀ candidate ∈ found, candidate.Everywhere p)
  (hvariant : ∀ {enumerate : Enumerator} {render : ι → Renderer},
    c.Sound (.everywhere p) enumerate render method →
    ∀ (label : Label) (options : List (Weighted Command)) (least most : Nat) (separator : Text)
      (sampling : Option Sampling) (scope : Scope) (ambient : Text),
    p (.variant label options least most separator sampling) →
    (Contract.everywhere p).admits (options.map (·.value)) scope →
    c.holds
      ((Contract.everywhere p).settles [.variant label options least most separator sampling] scope)
      scope (variantBranches enumerate options least most separator scope ambient) fun i =>
      renderVariant (environments i) (render i) label options least most separator method ambient)
include hchoosing hfits hcandidates hvariant

/-- One node: if the walks over the parts compare with their branches, the walk over the
node compares with its own. -/
theorem sound_node (hsound : c.Sound (.everywhere p) enumerate render method) :
    c.Sound (.everywhere p) (enumerateNode env .distinct enumerate)
      (fun i => renderNode (environments i) (render i)) method := by
  intro command scope ambient hadmits
  have hcommand := hadmits.1 command (List.mem_singleton_self _)
  have hparts : (Contract.everywhere p).admits command.parts scope :=
    ⟨fun part => hcommand.of_part, hadmits.2⟩
  obtain ⟨hunforced, hpure⟩ := hfits command hcommand.here
  refine hsound.node (Contract.everywhere_enters hparts) ambient fun hchooses => ?_
  cases command with
  | variant label options least most separator sampling =>
    have hpassed : (sampling.getD method).walked = method := hunforced.passed
    have hchosen := hvariant hsound label options least most separator sampling scope ambient
      hcommand.here hparts
    simp only [renderNode, hpassed]
    exact byMethod hchosen hunforced.all
  | wildcard label name inlined sampling =>
    have hname : ∀ part ∈ name.parts, part.Everywhere p ∧
        part.Everywhere Command.BindsNothing := by
      -- inline values are deferred, so only a rendered name could bind, and it must not
      intro part hmem
      refine ⟨hparts.1 part (List.mem_append_left _ hmem), ?_⟩
      cases name with
      | fixed name => cases hmem
      | rendered command =>
        rw [List.mem_singleton.1 hmem]
        exact hpure label command inlined sampling rfl
    have hinlined : ∀ v ∈ inlined, v.2.Everywhere p := fun v hmem =>
      hparts.1 v.2 (List.mem_append_right _ (List.mem_map_of_mem hmem))
    have hmine : Unforced env.policy method sampling := hunforced
    have hchosen :=
      hchoosing.wildcard hsound hadmits.2 hcandidates hname hinlined hmine label ambient
    refine c.mono (byMethod hchosen hmine.all) fun after hafter => ?_
    rw [hafter]
    exact (Contract.everywhere p).settles_self hparts
  | probability label chance value sampling =>
    have hchosen := hchoosing.probability hsound hadmits.2 label chance sampling
      (hparts.1 value (List.mem_singleton_self _)) ambient
    have hpassed : (sampling.getD method).walked = method := hunforced.passed
    simp only [renderNode, hpassed]
    exact byMethod hchosen hunforced.all
  | _ => exact absurd rfl hchooses

/-- Trees, up to a depth. The induction is on the depth: bindings and candidates bring
in trees from elsewhere, so there is no induction on the tree. -/
theorem sound_within (depth : Nat) :
    c.Sound (.everywhere p) (enumerateWithin env .distinct depth)
      (fun i => renderWithin (environments i) depth) method := by
  induction depth with
  | zero => exact fun command scope ambient _ => hchoosing.fail .tooDeep _
  | succ depth ih => exact sound_node hchoosing hfits hcandidates hvariant ih

end Recursion

end Comparison.Choosing

/-! ## 4. Following -/

/-- Both sides ask for the candidates of a wildcard, the walk by a method that is refused
alike. -/
theorem Follows.asking {env : Environment} {tree : Text → Except WalkError Command}
    {settled : Scope → Prop} {scope : Scope} {name : Text} {other : Sampling}
    {f : List Command → Branches} {next : List Command → Walk Text}
    (halike : env.policy.refuses .combinatorial = env.policy.refuses other)
    (hnext : ∀ found, wildcardTrees env tree name .combinatorial = .ok found →
      Follows (Session.Reads env.grammar tree) settled scope (f found) (next found)) :
    Follows (Session.Reads env.grammar tree) settled scope
      (Branches.ofSession (Session.wildcardCandidates env name .combinatorial) f)
      (Walk.ofSession (Session.wildcardCandidates env name other) >>= next) := by
  refine Follows.ofSession (fun s hs => hs.wildcardCandidates env name .combinatorial)
    (fun found hfound s hs => ?_) hnext
  have hasked := hs.wildcardCandidates env name other
  rw [hasked.1, wildcardTrees_ok_of_refuses halike hfound]
  exact ⟨rfl, hasked.2⟩

end PromptTemplate
