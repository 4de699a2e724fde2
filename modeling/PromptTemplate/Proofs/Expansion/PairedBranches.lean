/-
`PairedBranches.lean` -- enumerations of trees that differ in the form of a chance.

What `Pairing` asks of nodes and scopes for walks is enough for enumerations: the branches of
admitted pairs go together, one by one (`Pairing.enumerates_within`). The empty option of the
second form has one branch, as leaving out has in the first; and a node that is to be drawn or
rotated has one branch, which is a walk.
-/
import PromptTemplate.Proofs.Expansion.Choosing
import PromptTemplate.Proofs.Expansion.Pairing

set_option autoImplicit false

namespace PromptTemplate

/-! ## 1. The two forms of a chance -/

/-- Members that were changed first. -/
theorem Branches.forEach_map {α β : Type} (f : β → Branches) (g : α → β) (members : List α) :
    forEach f (members.map g) = forEach (fun member => f (g member)) members := by
  induction members with
  | nil => rfl
  | cons member members ih => rw [List.map_cons, forEach, forEach, ih]

/-- Leading every branch to itself is the run. -/
theorem Run.bind_self (run : Run) : run.bind Branches.single = run := by
  induction run with
  | done s => rfl
  | fail error s => rfl
  | yield branch s rest ih =>
    simp only [bind, Branches.single, append, ih]

/-- The branches of the second form are those of what stands for each outcome. -/
theorem Inclusion.variantBranches_options (x : Inclusion) (enumerate : Enumerator)
    (separator : Text) (scope : Scope) (ambient : Text) :
    variantBranches enumerate x.options 1 1 separator scope ambient =
      Branches.forEach (fun included => enumerate (x.outcome included) scope ambient)
        (probabilityChoices (.finite x.chance)) := by
  have hjoined : ∀ included : Bool, joinedBranches enumerate separator ambient []
      (optionsAt x.options [if included = true then 1 else 0]) scope =
        enumerate (x.outcome included) scope ambient := by
    intro included
    rw [optionsAt_options]
    exact funext fun s => Run.bind_self _
  unfold variantBranches
  rw [x.variantChoices_options]
  split
  · next hnone => exact absurd (List.map_eq_nil_iff.1 hnone) (probabilityChoices_ne_nil x.chance)
  · rw [Branches.forEach_map]
    simp only [hjoined]

namespace Pairing

variable {x : Inclusion} {candidate : Command → Prop} {π : Pairing x candidate}
  {pair : Command × Command} {pairs : List (Command × Command)} {a b : Scope}

/-! ## 2. The rules of the nodes -/

open Together in
/-- The branches of admitted pairs go together. The second enumerator gets as deep as nothing, and
the first one comes no deeper. -/
structure Enumerates (π : Pairing x candidate) (known : Session → Prop) (mine yours : Enumerator) :
    Prop where
  branches : ∀ {pair : Command × Command} {a b : Scope}, π.admits .combinatorial [pair] a b →
    ∀ ambient, Yields known (π.settles .combinatorial [pair] a b) (mine pair.1 a ambient)
      (yours pair.2 b ambient)
  mine_nothing : ∀ {settled : Scope → Scope → Prop} {a b : Scope}, settled a b → ∀ ambient,
    Yields known settled (mine (.literal []) a ambient) (.single ⟨[], b⟩)
  yours_nothing : ∀ scope ambient, yours (.literal []) scope ambient = .single ⟨[], scope⟩

namespace Enumerates

open Together

variable {known : Session → Prop} {mine yours : Enumerator}

section Parts

variable (h : π.Enumerates known mine yours)
include h

/-! ### Several nodes -/

/-- Nodes one after another settle their pairs, by induction on their list. -/
theorem product (hadmits : π.admits .combinatorial pairs a b) (ambient : Text) :
    Yields known (π.settles .combinatorial pairs a b)
      (PromptTemplate.product mine (pairs.map Prod.fst) a ambient)
      (PromptTemplate.product yours (pairs.map Prod.snd) b ambient) := by
  induction pairs generalizing a b ambient with
  | nil => exact .single ⟨rfl, .refl []⟩
  | cons pair pairs ih =>
    refine (h.branches (of_mem hadmits List.mem_cons_self) ambient).bind
      fun first a' b' hfirst => ?_
    exact (ih (admits_rest hfirst hadmits) (ambient ++ first)).map fun rest _ _ hrest =>
      ⟨rfl, hfirst.cons hrest⟩

/-- So do values that are joined, by induction on those that are left. -/
theorem joined (hadmits : π.admits .combinatorial pairs a b) (separator ambient : Text)
    (texts : List Text) :
    Yields known (π.settles .combinatorial pairs a b)
      (joinedBranches mine separator ambient texts (pairs.map Prod.fst) a)
      (joinedBranches yours separator ambient texts (pairs.map Prod.snd) b) := by
  induction pairs generalizing a b texts with
  | nil => exact .single ⟨rfl, .refl []⟩
  | cons pair pairs ih =>
    refine (h.branches (of_mem hadmits List.mem_cons_self) ambient).bind
      fun first a' b' hfirst => ?_
    exact (ih (admits_rest hfirst hadmits) _).mono fun _ _ hrest => hfirst.cons hrest

/-- A wrapping settles what is wrapped, and then the wrapper. -/
theorem wrap {wrapper inner : Command × Command}
    (hadmits : π.admits .combinatorial [inner, wrapper] a b) (ambient : Text) :
    Yields known (π.settles .combinatorial [inner, wrapper] a b)
      (wrapBranches mine a ambient wrapper.1 inner.1)
      (wrapBranches yours b ambient wrapper.2 inner.2) := by
  refine (h.branches (of_mem hadmits List.mem_cons_self) ambient).bind fun first a' b' hfirst => ?_
  exact (h.branches (admits_rest hfirst hadmits) ambient).map fun around _ _ hsecond =>
    ⟨rfl, hfirst.cons hsecond⟩

/-! ### Variables -/

/-- Both have the branches of a binding, or neither has any. -/
theorem binding (hadmits : π.admits .combinatorial pairs a b) (ambient name : Text) :
    (bindingBranches mine a ambient name = none ∧ bindingBranches yours b ambient name = none) ∨
      ∃ first second, (bindingBranches mine a ambient name = some first ∧
        bindingBranches yours b ambient name = some second) ∧
        Yields known (fun a' b' => a' = a ∧ b' = b) first second := by
  have hreading := π.binding hadmits name
  unfold bindingBranches
  revert hreading
  generalize a.lookup name = first, b.lookup name = second
  intro hreading
  cases hreading with
  | none => exact .inl ⟨rfl, rfl⟩
  | evaluated text => exact .inr ⟨_, _, ⟨rfl, rfl⟩, .single ⟨rfl, rfl, rfl⟩⟩
  | deferred hcommand =>
    exact .inr ⟨_, _, ⟨rfl, rfl⟩, (h.branches hcommand ambient).map fun _ _ _ _ => ⟨rfl, rfl, rfl⟩⟩

/-- Looking at the target of a condition leaves both scopes as they were. -/
theorem target (hadmits : π.admits .combinatorial pairs a b) (ambient : Text) (key : Option Text) :
    Yields known (fun a' b' => a' = a ∧ b' = b) (targetBranches mine a ambient key)
      (targetBranches yours b ambient key) := by
  cases key with
  | none => exact .single ⟨rfl, rfl, rfl⟩
  | some key =>
    simp only [targetBranches]
    rcases h.binding hadmits ambient key with hnone | ⟨first, second, hsome, hboth⟩
    · rw [hnone.1, hnone.2]
      exact .single ⟨rfl, rfl, rfl⟩
    · rw [hsome.1, hsome.2]
      exact hboth

/-- A condition takes the same branch on both sides, by induction on what is left of it. -/
theorem condition {branches : List (Guarded (Command × Command))} {otherwise : Command × Command}
    (hadmits : π.admits .combinatorial pairs a b)
    (hbranches : ∀ branch ∈ branches, branch.value ∈ pairs) (hotherwise : otherwise ∈ pairs)
    (ambient : Text) :
    Yields known (π.settles .combinatorial pairs a b)
      (conditionBranches mine otherwise.1 ambient (branches.map (·.map Prod.fst)) a)
      (conditionBranches yours otherwise.2 ambient (branches.map (·.map Prod.snd)) b) := by
  -- the target binds before the branches, so the scopes of the rest are those it leaves
  induction branches with
  | nil =>
    exact (h.branches (of_mem hadmits hotherwise) ambient).mono fun _ _ hafter =>
      hafter.of_mem hotherwise
  | cons branch branches ih =>
    refine (h.target hadmits ambient branch.guard.key).bind fun target _ _ hafter => ?_
    obtain ⟨rfl, rfl⟩ := hafter
    have hmem := hbranches branch List.mem_cons_self
    change Yields known _
      (if branch.guard.pattern.test target then mine branch.value.1 _ ambient
        else conditionBranches mine otherwise.1 ambient (branches.map (·.map Prod.fst)) _)
      (if branch.guard.pattern.test target then yours branch.value.2 _ ambient
        else conditionBranches yours otherwise.2 ambient (branches.map (·.map Prod.snd)) _)
    split
    · exact (h.branches (of_mem hadmits hmem) ambient).mono fun _ _ hafter => hafter.of_mem hmem
    · exact ih fun other hmem => hbranches other (List.mem_cons_of_mem _ hmem)

/-- Reading a variable has the branches of what it stands for, of its default, or none. -/
theorem access {fallback : Option (Command × Command)}
    (hadmits : π.admits .combinatorial fallback.toList a b) (ambient name : Text) :
    Yields known (π.settles .combinatorial fallback.toList a b)
      (accessBranches mine a ambient name (fallback.map Prod.fst))
      (accessBranches yours b ambient name (fallback.map Prod.snd)) := by
  unfold accessBranches
  rcases h.binding hadmits ambient name with hnone | ⟨first, second, hsome, hboth⟩
  · rw [hnone.1, hnone.2]
    cases fallback with
    | some pair => exact h.branches hadmits ambient
    | none => exact .fail _
  · rw [hsome.1, hsome.2]
    refine hboth.mono fun a' b' hafter => ?_
    rw [hafter.1, hafter.2]
    exact .refl _

/-- An assignment binds on both sides or on none. -/
theorem assignment {value : Command × Command} (hadmits : π.admits .combinatorial [value] a b)
    (ambient name : Text) (overwrite immediate : Bool) :
    Yields known (π.settles .combinatorial [value] a b)
      (assignmentBranches mine a ambient name value.1 overwrite immediate)
      (assignmentBranches yours b ambient name value.2 overwrite immediate) := by
  have hbound : a.has name = b.has name := (π.binding hadmits name).isSome_eq
  unfold assignmentBranches
  rw [hbound]
  split
  · exact .single ⟨rfl, .refl _⟩
  · split
    · refine (h.branches hadmits ambient).map fun text a' b' hafter => ⟨rfl, ?_⟩
      exact fun other more hall hother => π.evaluate (hafter other more hall hother) name text
    · exact .single ⟨rfl, fun _ _ _ hother => π.defer hother name⟩

/-! ### Choices -/

/-- A variant goes through the same choices on both sides. -/
theorem variant {options : List (Weighted (Command × Command))}
    (hadmits : π.admits .combinatorial (options.map (·.value)) a b) (least most : Nat)
    (separator ambient : Text) :
    Yields known (π.settles .combinatorial (options.map (·.value)) a b)
      (variantBranches mine (options.map (·.map Prod.fst)) least most separator a ambient)
      (variantBranches yours (options.map (·.map Prod.snd)) least most separator b ambient) := by
  unfold variantBranches
  simp only [weights_map, optionsAt_map]
  cases hchoices : variantChoices (options.map (·.weight)) least most with
  | nil => exact .single ⟨rfl, .refl _⟩
  | cons choice choices =>
    refine .forEach fun chosen hmem => ?_
    rw [← hchoices] at hmem
    have hsub := (valuesAt_sublist hmem).subperm
    exact (h.joined (π.sub hadmits hsub) separator ambient []).mono fun _ _ hafter =>
      hafter.sub hsub

/-- A part with a chance has the branches with it and without it. -/
theorem probability {value : Command × Command} (hadmits : π.admits .combinatorial [value] a b)
    (chance : Rat) (ambient : Text) :
    Yields known (π.settles .combinatorial [value] a b)
      (probabilityBranches mine chance value.1 a ambient)
      (probabilityBranches yours chance value.2 b ambient) := by
  refine .forEach fun included _ => ?_
  cases included with
  | true => exact h.branches hadmits ambient
  | false => exact .single ⟨rfl, .refl _⟩

/-- The two forms of one part. -/
theorem forms (hadmits : π.admits .combinatorial [(x.value, x.value)] a b)
    (separator ambient : Text) :
    Yields known (π.settles .combinatorial [(x.value, x.value)] a b)
        (probabilityBranches mine x.chance x.value a ambient)
        (variantBranches yours x.options 1 1 separator b ambient) ∧
      Yields known (π.settles .combinatorial [(x.value, x.value)] a b)
        (variantBranches mine x.options 1 1 separator a ambient)
        (probabilityBranches yours x.chance x.value b ambient) := by
  simp only [Inclusion.variantBranches_options]
  constructor
  · refine .forEach fun included _ => ?_
    cases included with
    | true => exact h.branches hadmits ambient
    | false =>
      simp only [Inclusion.outcome, Bool.false_eq_true, if_false, h.yours_nothing]
      exact .single ⟨rfl, .refl _⟩
  · refine .forEach fun included _ => ?_
    cases included with
    | true => exact h.branches hadmits ambient
    | false => exact h.mine_nothing (settles.refl _) ambient

/-- The name of a wildcard. -/
theorem name {name : WildcardName (Command × Command)}
    (hadmits : π.admits .combinatorial name.parts a b) (ambient : Text) :
    Yields known (π.settles .combinatorial name.parts a b)
      (nameBranches mine a ambient (name.map Prod.fst))
      (nameBranches yours b ambient (name.map Prod.snd)) := by
  cases name with
  | fixed name => exact .single ⟨rfl, .refl _⟩
  | rendered pair => exact h.branches hadmits ambient

end Parts

/-! ### Wildcards -/

section Trees

variable {env : Environment} {tree : Text → Except WalkError Command}
  (h : π.Enumerates (Session.Reads env.grammar tree) mine yours)
  (hcandidates : ∀ name method found, wildcardTrees env tree name method = .ok found →
    ∀ command ∈ found, candidate command)
include h hcandidates

/-- Candidates are the same on both sides and pair with themselves. -/
theorem candidates {inlined : List (Text × Command × Command)} {settled : Scope → Scope → Prop}
    (hadmits : π.admits .combinatorial (inlined.map Prod.snd) a b) (hsettled : settled a b)
    (name ambient : Text) :
    Yields (Session.Reads env.grammar tree) settled
      (candidateBranches env mine (inlined.map fun v => (v.1, v.2.1)) ambient ⟨name, a⟩)
      (candidateBranches env yours (inlined.map fun v => (v.1, v.2.2)) ambient ⟨name, b⟩) := by
  rw [Comparison.Choosing.candidateBranches_eq, Comparison.Choosing.candidateBranches_eq]
  refine .ofSession (asks env tree name .combinatorial) fun found hanswer => ?_
  split
  · exact .single ⟨rfl, hsettled⟩
  · refine .forEach fun command hmem => ?_
    have hcommand := π.inline hadmits (hcandidates _ _ _ hanswer command hmem)
    exact (h.branches hcommand ambient).map fun _ _ _ _ => ⟨rfl, hsettled⟩

/-- A wildcard has one name on both sides, so it has the same candidates. -/
theorem wildcard {name : WildcardName (Command × Command)}
    {inlined : List (Text × Command × Command)}
    (hadmits : π.admits .combinatorial (name.parts ++ inlined.map Prod.snd) a b) (ambient : Text) :
    Yields (Session.Reads env.grammar tree)
      (π.settles .combinatorial (name.parts ++ inlined.map Prod.snd) a b)
      ((nameBranches mine a ambient (name.map Prod.fst)).distinct.bind
        (candidateBranches env mine (inlined.map fun v => (v.1, v.2.1)) ambient))
      ((nameBranches yours b ambient (name.map Prod.snd)).distinct.bind
        (candidateBranches env yours (inlined.map fun v => (v.1, v.2.2)) ambient)) := by
  have hname : name.parts.Subperm (name.parts ++ inlined.map Prod.snd) :=
    (List.sublist_append_left _ _).subperm
  refine (h.name (π.sub hadmits hname) ambient).distinct.bind fun found a' b' hfound => ?_
  exact h.candidates hcandidates (hfound _ _ hadmits hadmits) (hfound.sub hname) found ambient

/-! ## 3. The recursion -/

omit h hcandidates in
/-- A node that declares to be drawn or rotated has one branch, and every other one has all. -/
theorem byMethod {render render' : Renderer} (hrender : π.Renders known render render')
    (hadmits : π.admits .combinatorial [pair] a b) (ambient : Text) {all all' : Branches}
    (hall : Yields known (π.settles .combinatorial [pair] a b) all all') :
    Yields known (π.settles .combinatorial [pair] a b)
      (PromptTemplate.byMethod render pair.1 pair.1.declared a ambient all)
      (PromptTemplate.byMethod render' pair.2 pair.1.declared b ambient all') := by
  have hdeclared := π.declared hadmits
  cases hmethod : pair.1.declared with
  | none => exact hall
  | some method =>
    rw [hmethod] at hdeclared
    -- where a method is declared both sides are walked once, which is what was shown of renderers
    have hwalk : Yields known (π.settles .combinatorial [pair] a b)
        (walkBranch render pair.1 method a ambient)
          (walkBranch render' pair.2 method b ambient) := by
      refine .walkBranch ((hrender.walks hdeclared ambient).mono fun _ _ _ hafter => .declared ?_)
      rw [hmethod]
      exact hafter
    cases method with
    | combinatorial => exact hall
    | random => exact hwalk
    | cyclical => exact hwalk

/-- One node: the two forms of a part, or nodes whose parts are paired. -/
theorem node {deep : Nat}
    (hrender : π.Renders (Session.Reads env.grammar tree) (renderOnce env)
      (renderOnce { env with depthLimit := deep }))
    (hadmits : π.admits .combinatorial [pair] a b) (ambient : Text) :
    Yields (Session.Reads env.grammar tree) (π.settles .combinatorial [pair] a b)
      (enumerateNode env .distinct mine pair.1 a ambient)
      (enumerateNode { env with depthLimit := deep } .distinct yours pair.2 b ambient) := by
  -- either this is the part in its two forms, or both nodes are of one kind with paired parts
  rcases π.shape hadmits with hforms | ⟨parts, hpaired⟩
  · obtain ⟨-, hvalue⟩ := π.value hadmits hforms
    have hboth := h.forms hvalue Command.defaultSeparator ambient
    obtain ⟨command, other⟩ := pair
    rcases hforms with ⟨rfl, rfl⟩ | ⟨rfl, rfl⟩
    · exact byMethod hrender hadmits ambient (hboth.1.mono fun _ _ hafter =>
        hafter.forms (.inl ⟨rfl, rfl⟩))
    · exact byMethod hrender hadmits ambient (hboth.2.mono fun _ _ hafter =>
        hafter.forms (.inr ⟨rfl, rfl⟩))
  · have hparts := π.parts hadmits hpaired
    rw [List.append_nil] at hparts
    have hsettles : ∀ a' b', π.settles .combinatorial parts a b a' b' →
        π.settles .combinatorial [pair] a b a' b' := fun _ _ hafter => hafter.node hpaired
    obtain ⟨command, other⟩ := pair
    dsimp only at hpaired ⊢
    cases hpaired with
    | literal text => exact .single ⟨rfl, .refl _⟩
    | comment text => exact .single ⟨rfl, .refl _⟩
    | sequence children =>
      have hproduct := h.product hparts ambient
      rw [← sequenceBranches_eq_product, ← sequenceBranches_eq_product] at hproduct
      exact hproduct.mono hsettles
    | variant label options least most separator sampling =>
      exact byMethod hrender hadmits ambient
        ((h.variant hparts least most separator ambient).mono hsettles)
    | wildcard label name inlined sampling =>
      exact byMethod hrender hadmits ambient ((h.wildcard hcandidates hparts ambient).mono hsettles)
    | wrap wrapper inner =>
      -- what is inside comes first on both sides, and is listed last
      have hswap : List.Subperm [inner, wrapper] [wrapper, inner] := (List.Perm.swap _ _ _).subperm
      exact (h.wrap (π.sub hparts hswap) ambient).mono fun _ _ hafter =>
        hsettles _ _ (hafter.sub hswap)
    | probability label chance value sampling =>
      exact byMethod hrender hadmits ambient ((h.probability hparts chance ambient).mono hsettles)
    | condition branches otherwise =>
      refine (h.condition hparts (fun branch hmem => ?_) ?_ ambient).mono hsettles
      · exact List.mem_append_left _ (List.mem_map_of_mem hmem)
      · exact List.mem_append_right _ (List.mem_singleton_self _)
    | access name fallback => exact (h.access hparts ambient name).mono hsettles
    | assignment name value overwrite immediate =>
      exact (h.assignment hparts ambient name overwrite immediate).mono hsettles

end Trees

end Enumerates

/-- Trees, where the first enumeration may go to some depth and the second one deeper. -/
theorem enumerates_within (π : Pairing x candidate) (env : Environment)
    {tree : Text → Except WalkError Command}
    (hcandidates : ∀ name method found, wildcardTrees env tree name method = .ok found →
      ∀ command ∈ found, candidate command) {limit depth deep : Nat}
    (hlimit : env.depthLimit < limit) (hdeep : depth < deep) :
    π.Enumerates (Session.Reads env.grammar tree) (enumerateWithin env .distinct depth)
      (enumerateWithin { env with depthLimit := limit } .distinct deep) := by
  -- walks below overrides use the limits of the environments, not the depths of the enumeration
  have hrender : π.Renders (Session.Reads env.grammar tree) (renderOnce env)
      (renderOnce { env with depthLimit := limit }) := by
    change π.Renders _ (renderWithin env env.depthLimit)
      (renderWithin { env with depthLimit := limit } limit)
    rw [renderWithin_depthLimit env limit]
    exact π.renders_within hcandidates hlimit
  -- the other side has at least one step more at each depth, so it never ends too deep first
  induction depth generalizing deep with
  | zero =>
    obtain ⟨deep, rfl⟩ := Nat.exists_eq_succ_of_ne_zero (Nat.ne_of_gt hdeep)
    exact ⟨fun _ _ => .tooDeep, fun _ _ => .tooDeep, fun _ _ => rfl⟩
  | succ depth ih =>
    obtain ⟨deep, rfl⟩ := Nat.exists_eq_succ_of_ne_zero (Nat.ne_of_gt (Nat.zero_lt_of_lt hdeep))
    have hparts := ih (Nat.lt_of_succ_lt_succ hdeep)
    exact ⟨fun hadmits ambient => hparts.node hcandidates hrender hadmits ambient,
      fun hsettled _ => .single ⟨rfl, hsettled⟩, fun _ _ => rfl⟩

end Pairing

end PromptTemplate
