/-
`RenumberedBranches.lean` -- enumerating under other numbers.

Enumerating looks at a label only where it renders a node by a walk, and at the table of wildcard
values as walks do. So the branches of the renumbered tree, in the renumbered scope and resumed with
renumbered sessions, are those of the tree, with the scopes that they leave renumbered
(`Run.Renumbers`), and the same texts are left out as repeated.
-/
import PromptTemplate.Expansion.Enumeration
import PromptTemplate.Proofs.Expansion.Renumbered
import PromptTemplate.Proofs.Expansion.Runs

set_option autoImplicit false

namespace PromptTemplate

variable {h : Renumbering}

/-! ## 1. Runs -/

/-- From renumbered sessions the other run has the renumbered branches and ends the same way,
wherever each is resumed. -/
inductive Run.Renumbers (h : Renumbering) : Run → Run → Prop
  | done (s : Session) : Renumbers h (.done s) (.done (s.renumbered h))
  | fail (error : WalkError) (s : Session) :
    Renumbers h (.fail error s) (.fail error (s.renumbered h))
  | yield {branch : Branch} {s : Session} {rest other : Branches}
      (hrest : ∀ t, Renumbers h (rest t) (other (t.renumbered h))) :
    Renumbers h (.yield branch s rest) (.yield (branch.renumbered h) (s.renumbered h) other)

/-- Resumed with the renumbered session, the others are the renumbered branches. -/
def Branches.Renumbers (h : Renumbering) (branches other : Branches) : Prop :=
  ∀ s, (branches s).Renumbers h (other (s.renumbered h))

namespace Run.Renumbers

variable {run other : Run}

/-- Runs that go on with branches so renumbered. -/
theorem append (hrun : run.Renumbers h other) {next next' : Branches}
    (hnext : next.Renumbers h next') : (run.append next).Renumbers h (other.append next') := by
  induction hrun with
  | done s => exact hnext s
  | fail error s => exact .fail error s
  | yield _ ih => exact .yield ih

/-- For each branch what it leads to, on both sides. -/
theorem bind (hrun : run.Renumbers h other) {f f' : Branch → Branches}
    (hf : ∀ branch, (f branch).Renumbers h (f' (branch.renumbered h))) :
    (run.bind f).Renumbers h (other.bind f') := by
  induction hrun with
  | done s => exact .done s
  | fail error s => exact .fail error s
  | yield _ ih => exact (hf _ _).append ih

/-- Texts are the same on both sides, so the same branches are left out. -/
theorem distinct (hrun : run.Renumbers h other) (seen : List Text) :
    (run.distinct seen).Renumbers h (other.distinct seen) := by
  induction hrun generalizing seen with
  | done s => exact .done s
  | fail error s => exact .fail error s
  | @yield branch s rest other _ ih =>
    have htext : (branch.renumbered h).text = branch.text := rfl
    rw [Run.distinct, Run.distinct, htext]
    by_cases hseen : branch.text ∈ seen
    · rw [if_pos hseen, if_pos hseen]
      exact ih s seen
    · rw [if_neg hseen, if_neg hseen]
      exact .yield fun t => ih t _

/-- The first different texts of a run, or its error, are those of the other run. -/
theorem distinctTexts (hrun : run.Renumbers h other) (limit : Option Nat) (seen : List Text) :
    other.distinctTexts limit seen =
      ((run.distinctTexts limit seen).1, (run.distinctTexts limit seen).2.renumbered h) := by
  induction hrun generalizing seen with
  | done s => rfl
  | fail error s => rfl
  | @yield branch s rest other _ ih =>
    have htext : (branch.renumbered h).text = branch.text := rfl
    rw [Run.distinctTexts, Run.distinctTexts, htext]
    generalize (if branch.text ∈ seen then seen else branch.text :: seen) = seen'
    split
    · rfl
    · exact ih s seen'

end Run.Renumbers

namespace Branches.Renumbers

variable {branches other : Branches}

/-- One branch and the one that it becomes. -/
theorem single (branch : Branch) :
    (Branches.single branch).Renumbers h (.single (branch.renumbered h)) :=
  fun _ => .yield fun t => .done t

/-- Errors do not show numbers. -/
theorem fail (error : WalkError) : (Branches.fail error).Renumbers h (.fail error) :=
  fun s => .fail error s

/-- For each branch the branches that it leads to, on both sides. -/
theorem bind (hbranches : branches.Renumbers h other) {f f' : Branch → Branches}
    (hf : ∀ branch, (f branch).Renumbers h (f' (branch.renumbered h))) :
    (branches.bind f).Renumbers h (other.bind f') := fun s => (hbranches s).bind hf

/-- Each branch changed, on both sides. -/
theorem map (hbranches : branches.Renumbers h other) {f f' : Branch → Branch}
    (hf : ∀ branch, f' (branch.renumbered h) = (f branch).renumbered h) :
    (branches.map f).Renumbers h (other.map f') := by
  rw [← Branches.bind_single, ← Branches.bind_single]
  exact hbranches.bind fun branch => hf branch ▸ single (f branch)

/-- Leaving out texts that were there: the texts are the same. -/
theorem distinct (hbranches : branches.Renumbers h other) :
    branches.distinct.Renumbers h other.distinct := fun s => (hbranches s).distinct []

/-- The branches of each of several members correspond when each member's do. -/
theorem forEach {α β : Type} (f : α → β) (members : List α) {branches : α → Branches}
    {other : β → Branches} (hmembers : ∀ a, (branches a).Renumbers h (other (f a))) :
    (Branches.forEach branches members).Renumbers h (.forEach other (members.map f)) := by
  induction members with
  | nil => exact fun s => .done s
  | cons a members ih => exact fun s => (hmembers a s).append ih

/-- The same members on both sides. -/
theorem forEach_same {α : Type} {members : List α} {branches other : α → Branches}
    (hmembers : ∀ a, (branches a).Renumbers h (other a)) :
    (Branches.forEach branches members).Renumbers h (.forEach other members) := by
  have hmapped := forEach id members hmembers
  rwa [List.map_id] at hmapped

/-- Both sides of a decision that does not look at numbers. -/
theorem ite {p : Prop} [Decidable p] {branches' other' : Branches}
    (hyes : branches.Renumbers h other) (hno : branches'.Renumbers h other') :
    Renumbers h (if p then branches else branches') (if p then other else other') := by
  split
  · exact hyes
  · exact hno

/-- The one branch of a walk. -/
theorem walkBranch {render : Renderer} (hrender : Renderer.Renumbers h render) (command : Command)
    (method : Sampling) (scope : Scope) (ambient : Text) :
    (PromptTemplate.walkBranch render command method scope ambient).Renumbers h
      (PromptTemplate.walkBranch render (command.renumbered h) method (scope.renumbered h)
        ambient) := by
  intro s
  have hwalk := hrender command method ambient ⟨scope, s⟩
  have hstate : (⟨scope.renumbered h, s.renumbered h⟩ : Walking) =
      Walking.renumbered h ⟨scope, s⟩ := rfl
  rw [PromptTemplate.walkBranch, PromptTemplate.walkBranch, hstate, hwalk]
  generalize render command method ambient ⟨scope, s⟩ = run
  obtain ⟨result, after⟩ := run
  cases result with
  | error error => exact .fail error after.session
  | ok text => exact .yield fun t => .done t

/-- A node that is sampled is walked, and otherwise its branches are taken, on both sides. -/
theorem byMethod {render : Renderer} (hrender : Renderer.Renumbers h render) (command : Command)
    (sampling : Option Sampling) (scope : Scope) (ambient : Text)
    (hall : branches.Renumbers h other) :
    (PromptTemplate.byMethod render command sampling scope ambient branches).Renumbers h
      (PromptTemplate.byMethod render (command.renumbered h) sampling (scope.renumbered h) ambient
        other) := by
  unfold PromptTemplate.byMethod
  split
  · exact hall
  · exact hall
  · exact walkBranch hrender command _ scope ambient

end Branches.Renumbers

/-! ## 2. The rules of the nodes -/

/-- The branches of the renumbered tree in the renumbered scope are those of the tree. -/
def Enumerator.Renumbers (h : Renumbering) (enumerate : Enumerator) : Prop :=
  ∀ command scope ambient, (enumerate command scope ambient).Renumbers h
    (enumerate (command.renumbered h) (scope.renumbered h) ambient)

namespace Enumerator.Renumbers

variable {enumerate : Enumerator} (henumerate : Enumerator.Renumbers h enumerate)
include henumerate

/-- Nodes one after another, by induction on their list. -/
theorem product (children : List Command) (scope : Scope) (ambient : Text) :
    (PromptTemplate.product enumerate children scope ambient).Renumbers h
      (PromptTemplate.product enumerate (children.map (Command.renumbered h)) (scope.renumbered h)
        ambient) := by
  induction children generalizing scope ambient with
  | nil => exact .single ⟨[], scope⟩
  | cons child children ih =>
    exact (henumerate child scope ambient).bind fun first =>
      (ih first.scope (ambient ++ first.text)).map fun _ => rfl

/-- Values that are joined, by induction on those that are left. -/
theorem joined (separator ambient : Text) (parts : List Text) (values : List Command)
    (scope : Scope) :
    (joinedBranches enumerate separator ambient parts values scope).Renumbers h
      (joinedBranches enumerate separator ambient parts (values.map (Command.renumbered h))
        (scope.renumbered h)) := by
  induction values generalizing scope parts with
  | nil => exact .single _
  | cons value values ih =>
    exact (henumerate value scope ambient).bind fun branch =>
      ih (parts ++ [branch.text]) branch.scope

/-- A variant goes through the same choices. -/
theorem variant (options : List (Weighted Command)) (least most : Nat) (separator : Text)
    (scope : Scope) (ambient : Text) :
    (variantBranches enumerate options least most separator scope ambient).Renumbers h
      (variantBranches enumerate
        (options.map fun option => ⟨option.weight, option.value.renumbered h⟩) least most separator
        (scope.renumbered h) ambient) := by
  -- choices depend on the weights alone, which are not touched
  have hweights : (options.map fun option =>
      (⟨option.weight, option.value.renumbered h⟩ : Weighted Command)).map (·.weight) =
        options.map (·.weight) := by
    rw [List.map_map]
    rfl
  rw [variantBranches, variantBranches, hweights]
  have hchoice : ∀ choice, (joinedBranches enumerate separator ambient [] (optionsAt options choice)
      scope).Renumbers h (joinedBranches enumerate separator ambient [] (optionsAt (options.map
        fun option => ⟨option.weight, option.value.renumbered h⟩) choice)
          (scope.renumbered h)) := by
    intro choice
    rw [Renderer.Renumbers.optionsAt_renumbered]
    exact henumerate.joined separator ambient [] _ scope
  cases variantChoices (options.map (·.weight)) least most with
  | nil => exact .single ⟨[], scope⟩
  | cons choice choices => exact .forEach_same hchoice

/-- A wildcard has the same candidates, which the other side reads under other numbers. -/
theorem wildcard {env : Environment} (hopens : env.grammar.Opens) (inlined : List (Text × Command))
    (ambient : Text) (name : Branch) :
    (candidateBranches env enumerate inlined ambient name).Renumbers h
      (candidateBranches env enumerate (inlined.map (Prod.map id (Command.renumbered h))) ambient
        (name.renumbered h)) := by
  intro s
  have hfound := Session.wildcardCandidates_renumbered (h := h) hopens name.text .combinatorial s
  have htext : (name.renumbered h).text = name.text := rfl
  rw [candidateBranches, candidateBranches, htext, hfound]
  generalize Session.wildcardCandidates env name.text .combinatorial s = run
  obtain ⟨result, after⟩ := run
  -- the lookup fails, offers nothing, or offers candidates to be enumerated in one order
  rcases result with error | (_ | ⟨candidate, candidates⟩)
  · exact .fail error after
  · exact Branches.Renumbers.single ⟨[], name.scope⟩ after
  · refine Branches.Renumbers.forEach (Command.renumbered h) (candidate :: candidates)
      (fun candidate => ?_) after
    have hcandidate :=
      henumerate candidate (name.scope.push (inlineFrame name.scope inlined)) ambient
    have hframe : Scope.renumbered h (name.scope.push (inlineFrame name.scope inlined)) =
        (name.scope.renumbered h).push (inlineFrame (name.scope.renumbered h)
          (inlined.map (Prod.map id (Command.renumbered h)))) := by
      rw [inlineFrame_renumbered]
      rfl
    rw [hframe] at hcandidate
    exact hcandidate.map fun _ => rfl

/-- A part with a chance, with it or without it. -/
theorem probability (chance : Rat) (value : Command) (scope : Scope) (ambient : Text) :
    (probabilityBranches enumerate chance value scope ambient).Renumbers h
      (probabilityBranches enumerate chance (value.renumbered h) (scope.renumbered h) ambient) :=
  .forEach_same fun _ => .ite (henumerate value scope ambient) (.single ⟨[], scope⟩)

/-- A name is bound on both sides or on neither, and if it is, its branches correspond. -/
theorem binding (scope : Scope) (ambient name : Text) :
    Option.Rel (Branches.Renumbers h) (bindingBranches enumerate scope ambient name)
      (bindingBranches enumerate (scope.renumbered h) ambient name) := by
  rw [bindingBranches, bindingBranches, Scope.lookup_renumbered]
  rcases scope.lookup name with _ | (text | ⟨command, previous⟩)
  · exact .none
  · exact .some (.single ⟨text, scope⟩)
  · rw [Option.map_some, Binding.renumbered_deferred]
    exact .some ((henumerate command (scope.push (resolvingFrame name previous)) ambient).map
      fun _ => rfl)

/-- A condition, by induction on its branches: guards look at texts alone. -/
theorem condition (otherwise : Command) (ambient : Text) (branches : List (Guarded Command))
    (scope : Scope) :
    (conditionBranches enumerate otherwise ambient branches scope).Renumbers h
      (conditionBranches enumerate (otherwise.renumbered h) ambient
        (branches.map fun branch => ⟨branch.guard, branch.value.renumbered h⟩)
        (scope.renumbered h)) := by
  induction branches generalizing scope with
  | nil => exact henumerate otherwise scope ambient
  -- the target reads a variable by its name, and names are not renumbered
  | cons branch branches ih =>
    have htarget : (targetBranches enumerate scope ambient branch.guard.key).Renumbers h
        (targetBranches enumerate (scope.renumbered h) ambient branch.guard.key) := by
      cases branch.guard.key with
      | none => exact .single ⟨ambient, scope⟩
      | some key =>
        have hbinding := henumerate.binding scope ambient key
        rw [targetBranches, targetBranches]
        generalize bindingBranches enumerate scope ambient key = mine,
          bindingBranches enumerate (scope.renumbered h) ambient key = yours at hbinding ⊢
        cases hbinding with
        | none => exact .single ⟨[], scope⟩
        | some hfound => exact hfound
    exact htarget.bind fun target =>
      .ite (henumerate branch.value target.scope ambient) (ih target.scope)

/-- Reading a variable finds the renumbered binding. -/
theorem access (scope : Scope) (ambient name : Text) (fallback : Option Command) :
    (accessBranches enumerate scope ambient name fallback).Renumbers h
      (accessBranches enumerate (scope.renumbered h) ambient name
        (fallback.map (Command.renumbered h))) := by
  have hbinding := henumerate.binding scope ambient name
  unfold accessBranches
  generalize bindingBranches enumerate scope ambient name = mine,
    bindingBranches enumerate (scope.renumbered h) ambient name = yours at hbinding ⊢
  cases hbinding with
  | some hfound => exact hfound
  | none =>
    cases fallback with
    | none => exact .fail _
    | some command => exact henumerate command scope ambient

/-- An assignment binds the renumbered value. -/
theorem assignment (scope : Scope) (ambient name : Text) (value : Command)
    (overwrite immediate : Bool) :
    (assignmentBranches enumerate scope ambient name value overwrite immediate).Renumbers h
      (assignmentBranches enumerate (scope.renumbered h) ambient name (value.renumbered h) overwrite
        immediate) := by
  rw [assignmentBranches, assignmentBranches, Scope.has, Scope.has, Scope.lookup_renumbered,
    Option.isSome_map, ← Binding.renumbered_deferred]
  exact .ite (.single ⟨[], scope⟩) (.ite ((henumerate value scope ambient).map fun _ => rfl)
    (.single ⟨[], scope.bind name (.deferred value (scope.lookup name))⟩))

/-- One node, given that its parts do. -/
theorem node {env : Environment} (hopens : env.grammar.Opens) :
    Enumerator.Renumbers h (enumerateNode env .distinct enumerate) := by
  -- nodes under an override are walked, with the law of walks
  have hrender := renderWithin_renumbers (h := h) hopens env.depthLimit
  intro command scope ambient
  cases command with
  | literal text => exact .single ⟨text, scope⟩
  | comment text => exact .single ⟨[], scope⟩
  | sequence children =>
    have hchildren := henumerate.product children scope ambient
    rw [← sequenceBranches_eq_product, ← sequenceBranches_eq_product,
      ← Command.relabelledAll_eq] at hchildren
    exact hchildren
  | variant label options least most separator sampling =>
    have hoptions := henumerate.variant options least most separator scope ambient
    rw [← Command.relabelledOptions_eq] at hoptions
    exact .byMethod hrender (.variant label options least most separator sampling) sampling scope
      ambient hoptions
  | wildcard label name inlined sampling =>
    have hname : (nameBranches enumerate scope ambient name).Renumbers h
        (nameBranches enumerate (scope.renumbered h) ambient
          (Command.relabelledName (Label.renumbered h) name)) := by
      cases name with
      | fixed name => exact .single ⟨name, scope⟩
      | rendered command => exact henumerate command scope ambient
    have hcandidates := hname.distinct.bind (henumerate.wildcard hopens inlined ambient)
    rw [← Command.relabelledVariables_eq] at hcandidates
    exact .byMethod hrender (.wildcard label name inlined sampling) sampling scope
      ambient hcandidates
  | wrap wrapper inner =>
    exact (henumerate inner scope ambient).bind fun inner =>
      (henumerate wrapper inner.scope ambient).map fun _ => rfl
  | probability label chance value sampling =>
    exact .byMethod hrender (.probability label chance value sampling) sampling scope ambient
      (henumerate.probability chance value scope ambient)
  | condition branches otherwise =>
    have hbranches := henumerate.condition otherwise ambient branches scope
    rw [← Command.relabelledBranches_eq] at hbranches
    exact hbranches
  | access name fallback =>
    rw [Command.renumbered, Command.relabelled_access]
    exact henumerate.access scope ambient name fallback
  | assignment name value overwrite immediate =>
    exact henumerate.assignment scope ambient name value overwrite immediate

end Enumerator.Renumbers

/-- **Enumerating does not depend on numbers**, at whatever depth. -/
theorem enumerateWithin_renumbers {env : Environment} (hopens : env.grammar.Opens) (depth : Nat) :
    Enumerator.Renumbers h (enumerateWithin env .distinct depth) := by
  induction depth with
  | zero => exact fun _ _ _ => .fail _
  | succ depth ih => exact ih.node hopens

end PromptTemplate
