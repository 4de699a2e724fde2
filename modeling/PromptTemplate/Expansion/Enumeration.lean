/-
`Enumeration.lean` -- all renderings of a tree.

Each node yields its renderings in the order in which they are declared, together
with the scope that each leaves. A scope is never changed here: an assignment
yields another one, so no branch sees the bindings of its neighbours. A node that
is to be drawn or rotated yields one branch, rendered by a walk over a scope of its
own. The name of a wildcard is resolved once for each text that it renders to; the
rule that leaves out repeated names is a parameter of `enumerateNode`.
-/
import PromptTemplate.Expansion.Product
import PromptTemplate.Expansion.Walk

set_option autoImplicit false

namespace PromptTemplate

/-! ## 1. The rules of the nodes -/

/-- One branch: a walk over a copy of the scope. -/
def walkBranch (render : Renderer) (command : Command) (method : Sampling) (scope : Scope)
    (ambient : Text) :
    Branches := fun s =>
  match render command method ambient ⟨scope, s⟩ with
  | (.ok text, w) => .yield ⟨text, w.scope⟩ w.session .done
  | (.error error, w) => .fail error w.session

/-- The branches of a node by its own method: all of them, or one. -/
def byMethod (render : Renderer) (command : Command) (sampling : Option Sampling) (scope : Scope)
    (ambient : Text) (all : Branches) : Branches :=
  match sampling with
  | none | some .combinatorial => all
  | some method => walkBranch render command method scope ambient

/-- The branches of values one after another, joined with a separator. -/
def joinedBranches (enumerate : Enumerator) (separator ambient : Text) :
    (parts : List Text) → List Command → Scope → Branches
  | parts, [], scope => .single ⟨Text.join separator parts, scope⟩
  | parts, value :: values, scope =>
    (enumerate value scope ambient).bind fun branch =>
      joinedBranches enumerate separator ambient (parts ++ [branch.text]) values branch.scope

/-- Every choice of a variant. -/
def variantBranches (enumerate : Enumerator) (options : List (Weighted Command)) (least most : Nat)
    (separator : Text) (scope : Scope) (ambient : Text) : Branches :=
  match variantChoices (options.map (·.weight)) least most with
  | [] => .single ⟨[], scope⟩
  | choices =>
    Branches.forEach
      (fun choice => joinedBranches enumerate separator ambient [] (optionsAt options choice) scope)
        choices

/-- The names that a wildcard can have. -/
def nameBranches (enumerate : Enumerator) (scope : Scope) (ambient : Text) : WildcardName Command →
    Branches
  | .fixed name => .single ⟨name, scope⟩
  | .rendered command => enumerate command scope ambient

/-- Every candidate of a wildcard of a known name. What a candidate binds stays
inside it. -/
def candidateBranches (env : Environment) (enumerate : Enumerator) (inlined : List (Text × Command))
    (ambient : Text) (name : Branch) : Branches := fun s =>
  match Session.wildcardCandidates env name.text .combinatorial s with
  | (.error error, s) => .fail error s
  | (.ok [], s) => Branches.single ⟨[], name.scope⟩ s
  | (.ok candidates, s) =>
    Branches.forEach
      (fun candidate =>
        (enumerate candidate (name.scope.push (inlineFrame name.scope inlined)) ambient).map
          fun branch =>
          ⟨branch.text, name.scope⟩)
      candidates s

/-- A wrapper around what it goes around; the inner part comes first. -/
def wrapBranches (enumerate : Enumerator) (scope : Scope) (ambient : Text)
    (wrapper inner : Command) : Branches :=
  (enumerate inner scope ambient).bind fun inner =>
    (enumerate wrapper inner.scope ambient).map fun wrapper =>
      ⟨applyWrap wrapper.text inner.text, wrapper.scope⟩

/-- A part left out, then put in. -/
def probabilityBranches (enumerate : Enumerator) (chance : Rat) (value : Command) (scope : Scope)
    (ambient : Text) : Branches :=
  Branches.forEach (fun included => if included then enumerate value scope ambient
    else .single ⟨[], scope⟩)
    (probabilityChoices (.finite chance))

/-- The branches of a name's binding, if it has one. -/
def bindingBranches (enumerate : Enumerator) (scope : Scope) (ambient name : Text) :
    Option Branches :=
  match scope.lookup name with
  | none => none
  | some (.evaluated text) => some (.single ⟨text, scope⟩)
  | some (.deferred command previous) =>
    some <| (enumerate command (scope.push (resolvingFrame name previous)) ambient).map
      fun branch =>
      ⟨branch.text, scope⟩

/-- The texts that a branch tests; an unbound variable reads as nothing. -/
def targetBranches (enumerate : Enumerator) (scope : Scope) (ambient : Text) : Option Text →
    Branches
  | none => .single ⟨ambient, scope⟩
  | some key => (bindingBranches enumerate scope ambient key).getD (.single ⟨[], scope⟩)

/-- For each text to test the first branch whose guard holds, or the last resort. -/
def conditionBranches (enumerate : Enumerator) (otherwise : Command) (ambient : Text) :
    List (Guarded Command) → Scope → Branches
  | [], scope => enumerate otherwise scope ambient
  | branch :: branches, scope =>
    (targetBranches enumerate scope ambient branch.guard.key).bind fun target =>
      if branch.guard.pattern.test target.text then enumerate branch.value target.scope ambient
      else conditionBranches enumerate otherwise ambient branches target.scope

/-- The readings of a variable. -/
def accessBranches (enumerate : Enumerator) (scope : Scope) (ambient name : Text)
    (fallback : Option Command) :
    Branches :=
  match bindingBranches enumerate scope ambient name with
  | some branches => branches
  | none =>
    match fallback with
    | some command => enumerate command scope ambient
    | none => .fail (.unknownVariable name)

/-- The bindings of a variable. -/
def assignmentBranches (enumerate : Enumerator) (scope : Scope) (ambient name : Text)
    (value : Command) (overwrite immediate : Bool) : Branches :=
  if !overwrite && scope.has name then .single ⟨[], scope⟩
  else if immediate then
    (enumerate value scope ambient).map fun branch =>
      ⟨[], branch.scope.bind name (.evaluated branch.text)⟩
  else .single ⟨[], scope.bind name (.deferred value (scope.lookup name))⟩

/-- The branches of a node, given those of its parts, and which branches of a
wildcard's name are kept. -/
def enumerateNode (env : Environment) (kept : Branches → Branches) (enumerate : Enumerator) :
    Enumerator :=
  fun command scope ambient s =>
    match command with
    | .literal text => Branches.single ⟨text, scope⟩ s
    | .comment _ => Branches.single ⟨[], scope⟩ s
    | .sequence children => sequenceBranches enumerate children scope ambient s
    | .variant _ options least most separator sampling =>
      byMethod (renderOnce env) command sampling scope ambient
        (variantBranches enumerate options least most separator scope ambient) s
    | .wildcard _ name inlined sampling =>
      byMethod (renderOnce env) command sampling scope ambient
        ((kept (nameBranches enumerate scope ambient name)).bind
          (candidateBranches env enumerate inlined ambient)) s
    | .wrap wrapper inner => wrapBranches enumerate scope ambient wrapper inner s
    | .probability _ chance value sampling =>
      byMethod (renderOnce env) command sampling scope ambient
        (probabilityBranches enumerate chance value scope ambient) s
    | .condition branches otherwise =>
      conditionBranches enumerate otherwise ambient branches scope s
    | .access name fallback => accessBranches enumerate scope ambient name fallback s
    | .assignment name value overwrite immediate =>
      assignmentBranches enumerate scope ambient name value overwrite immediate s

/-! ## 2. Trees -/

/-- Enumerating that goes at most `depth` nodes deep into itself. -/
def enumerateWithin (env : Environment) (kept : Branches → Branches) : (depth : Nat) → Enumerator
  | 0, _, _, _, s => .fail .tooDeep s
  | depth + 1, command, scope, ambient, s =>
    enumerateNode env kept (enumerateWithin env kept depth) command scope ambient s

/-- All branches of a tree. -/
def enumerate (env : Environment) : Enumerator := enumerateWithin env .distinct env.depthLimit

/-- The first different renderings of a tree. -/
def enumerateDistinct (env : Environment) (command : Command) (scope : Scope) (limit : Option Nat)
    (s : Session) :
    Except WalkError (List Text) × Session :=
  (enumerate env command scope []).distinctTexts limit s

end PromptTemplate
