/-
`Pairing.lean` -- walks over trees that differ in the form of a chance.

A part that is put in by chance can be written as a probability, or as a variant of which the other
option is empty. Where nothing is drawn both take the same turns, so trees that differ in the form
of such parts render alike. A `Pairing` says which pairs of nodes may be rendered by which method
in which pairs of scopes, and is kept along the way (`admits`); what rendering some of the pairs
makes of the scopes is told by what may be rendered there afterwards (`settles`). From that alone
the walks over admitted pairs go together (`Pairing.renders_within`): the rules of the nodes are
proved once, and which nodes and scopes may meet is left to each pairing.
-/
import Mathlib.Data.List.Perm.Subperm
import PromptTemplate.Proofs.Command.Paired
import PromptTemplate.Proofs.Expansion.Choices
import PromptTemplate.Proofs.Expansion.Together

set_option autoImplicit false

namespace PromptTemplate

/-! ## 1. The two forms of a chance -/

/-- A part that is put in or left out. The weight of leaving it out is `1 - chance`, which may be
rounded: it is above zero if and only if the part is not certain to be put in. -/
structure Inclusion where
  label : Label
  chance : Rat
  rest : Rat
  value : Command
  sampling : Option Sampling
  rest_pos : 0 < rest ↔ chance < 1

namespace Inclusion

/-- The part by its chance. -/
def asProbability (x : Inclusion) : Command := .probability x.label x.chance x.value x.sampling

/-- Nothing or the part, by their weights. -/
def options (x : Inclusion) : List (Weighted Command) :=
  [⟨x.rest, .literal []⟩, ⟨x.chance, x.value⟩]

/-- One of the two options. -/
def asVariant (x : Inclusion) : Command :=
  .variant x.label x.options 1 1 Command.defaultSeparator x.sampling

/-- Both forms are what is built of a chance between zero and one, and of a weight. -/
theorem built (x : Inclusion) (hchance : 0 ≤ x.chance ∧ x.chance ≤ 1) (hrest : 0 ≤ x.rest) :
    Command.makeProbability x.label (.finite x.chance) x.value x.sampling = .ok x.asProbability ∧
      Command.makeVariant x.label [(some (.finite x.rest), .literal []),
        (some (.finite x.chance), x.value)]
        ⟨none, none, none, x.sampling⟩ = .ok x.asVariant := by
  have hweight : ∀ {q : Rat}, 0 ≤ q → Command.checkWeight (.finite q) = .ok q := fun hq => by
    rw [Command.checkWeight, if_neg (by grind)]
  refine ⟨?_, ?_⟩
  · rw [Command.makeProbability, if_neg (by grind), if_neg (by grind)]
    rfl
  · simp only [Command.makeVariant, Command.checkOptions, Option.getD_some, hweight hrest,
      hweight hchance.1]
    rfl

/-- One is the first form and the other is the second. -/
def Forms (x : Inclusion) (command other : Command) : Prop :=
  (command = x.asProbability ∧ other = x.asVariant) ∨
    (command = x.asVariant ∧ other = x.asProbability)

/-- What stands for an outcome. -/
def outcome (x : Inclusion) (included : Bool) : Command := if included then x.value else .literal []

variable {x : Inclusion}

/-- Both forms declare the method of the part. -/
theorem Forms.declared {command other : Command} (h : x.Forms command other) :
    command.declared = x.sampling := by
  rcases h with ⟨rfl, rfl⟩ | ⟨rfl, rfl⟩ <;> rfl

/-- They are nodes of different kinds. -/
theorem Forms.ne {command other : Command} (h : x.Forms command other) : command ≠ other := by
  rcases h with ⟨rfl, rfl⟩ | ⟨rfl, rfl⟩ <;> exact nofun

/-- The choices of the second form are the outcomes of the first, one option for each. -/
theorem variantChoices_options (x : Inclusion) :
    variantChoices (x.options.map (·.weight)) 1 1 =
      (probabilityChoices (.finite x.chance)).map fun included => [if included then 1 else 0] := by
  have hout : (Number.finite x.chance).lt 1 = decide (x.chance < 1) := rfl
  have hin : Number.lt 0 (.finite x.chance) = decide (0 < x.chance) := rfl
  rw [variantChoices_one, probabilityChoices, hout, hin]
  simp only [options, List.map_cons, List.map_nil, eligible, eligibleFrom, x.rest_pos,
    decide_eq_true_eq]
  split <;> split <;> rfl

/-- Choosing one of the two options is the outcome. -/
theorem optionsAt_options (x : Inclusion) (included : Bool) :
    optionsAt x.options [if included then 1 else 0] = [x.outcome included] := by
  cases included <;> rfl

/-- A walk by turns over the second form renders what the turn of the first says. -/
theorem renderVariant_options (x : Inclusion) (env : Environment) (render : Renderer)
    {method : Sampling} (hmethod : method ≠ .random) (separator ambient : Text) :
    renderVariant env render x.label x.options 1 1 separator method ambient =
      isIncluded env x.label x.chance method >>= fun included =>
        render (x.outcome included) method ambient := by
  -- a chance has an outcome, so the choices of the variant are never empty
  have hchoices : ((probabilityChoices (.finite x.chance)).map fun included =>
      [if included = true then 1 else 0]).isEmpty = false := by
    rw [List.isEmpty_map]
    exact List.isEmpty_eq_false_iff.2 (probabilityChoices_ne_nil x.chance)
  -- one option was chosen, and joining one text adds no separator
  have hjoin : ∀ included : Bool,
      (renderEach render method ambient (optionsAt x.options [if included = true then 1 else 0]) >>=
        fun parts => pure (Text.join separator parts)) =
      render (x.outcome included) method ambient := by
    intro included
    simp only [optionsAt_options, renderEach, Walk.bind_assoc, Walk.pure_bind]
    exact Walk.bind_pure (render (x.outcome included) method ambient)
  simp only [renderVariant, isIncluded, if_neg hmethod, variantChoices_options, hchoices,
    Bool.false_eq_true, if_false, List.length_map, Together.pick_map, Walk.bind_assoc,
    Walk.pure_bind, hjoin]

end Inclusion

/-! ### Options of two variants -/

section Options

variable (f : Command × Command → Command) (options : List (Weighted (Command × Command)))

/-- Two variants that are paired have the same weights. -/
theorem weights_map : (options.map (·.map f)).map (·.weight) = options.map (·.weight) := by
  rw [List.map_map]
  rfl

/-- Choosing among changed options is changing those chosen among. -/
theorem optionsAt_map (choice : List Nat) :
    optionsAt (options.map (·.map f)) choice = (valuesAt options choice).map f := by
  unfold optionsAt valuesAt
  rw [List.map_filterMap]
  refine List.filterMap_congr fun index _ => ?_
  rw [List.getElem?_map]
  cases options[index]? <;> rfl

end Options

/-! ### Depth -/

/-- A loop of draws does not look at the depth limit. -/
theorem renderDrawn_depthLimit (env : Environment) (limit : Nat) (render : Renderer)
    (options : List (Weighted Command)) (ambient : Text) (count : Nat) :
    renderDrawn { env with depthLimit := limit } render options ambient count =
      renderDrawn env render options ambient count := by
  induction count with
  | zero => rfl
  | succ count ih =>
    rw [renderDrawn, renderDrawn, ih]
    rfl

/-- How deep a walk goes is not read off the environment once it has begun. -/
theorem renderWithin_depthLimit (env : Environment) (limit depth : Nat) :
    renderWithin { env with depthLimit := limit } depth = renderWithin env depth := by
  induction depth with
  | zero => rfl
  | succ depth ih =>
    funext command method ambient w
    rw [renderWithin, renderWithin, ih]
    cases command with
    | variant label options least most separator sampling =>
      simp only [renderNode, renderVariant, renderDrawn_depthLimit]
      rfl
    | _ => rfl

/-! ## 2. Pairings -/

/-- What two scopes say of one name: nothing, the same text, or commands which `may` be rendered
side by side where the name reads as what it was before. -/
inductive Reading (may : List (Command × Command) → Scope → Scope → Prop) (a b : Scope)
    (name : Text) :
    Option Binding → Option Binding → Prop
  | none : Reading may a b name none none
  | evaluated (text : Text) : Reading may a b name (some (.evaluated text)) (some (.evaluated text))
  | deferred {command other : Command} {earlier previous : Option Binding}
      (h : may [(command, other)] (a.push (resolvingFrame name earlier))
        (b.push (resolvingFrame name previous))) :
      Reading may a b name (some (.deferred command earlier)) (some (.deferred other previous))

/-- What may be read under a condition may be read under a weaker one. -/
theorem Reading.mono {may might : List (Command × Command) → Scope → Scope → Prop} {a b : Scope}
    {name : Text} {mine yours : Option Binding} (h : Reading may a b name mine yours)
    (himp : ∀ pairs a b, may pairs a b → might pairs a b) : Reading might a b name mine yours := by
  cases h with
  | none => exact .none
  | evaluated text => exact .evaluated text
  | deferred h => exact .deferred (himp _ _ _ h)

/-- A name is bound on both sides or on none. -/
theorem Reading.isSome_eq {may : List (Command × Command) → Scope → Scope → Prop} {a b : Scope}
    {name : Text} {mine yours : Option Binding} (h : Reading may a b name mine yours) :
    mine.isSome = yours.isSome := by
  cases h <;> rfl

/-- Which pairs of nodes may be rendered one after another by a method, the first nodes in one
scope and the second ones in another. Nodes that are not paired are the two forms of one part, and
those are never drawn; what may be drawn may be rendered again, because it was the same. -/
structure Pairing (x : Inclusion) (candidate : Command → Prop) where
  admits : Sampling → List (Command × Command) → Scope → Scope → Prop
  sub : ∀ {method : Sampling} {pairs others : List (Command × Command)} {a b : Scope},
    admits method pairs a b → others.Subperm pairs → admits method others a b
  shape : ∀ {method : Sampling} {pair : Command × Command} {pairs : List (Command × Command)}
    {a b : Scope}, admits method (pair :: pairs) a b →
    x.Forms pair.1 pair.2 ∨ ∃ parts, pair.1.Paired pair.2 parts
  parts : ∀ {method : Sampling} {pair : Command × Command} {parts pairs : List (Command × Command)}
    {a b : Scope}, admits method (pair :: pairs) a b → pair.1.Paired pair.2 parts →
    admits method (parts ++ pairs) a b
  declared : ∀ {method : Sampling} {pair : Command × Command} {pairs : List (Command × Command)}
    {a b : Scope}, admits method (pair :: pairs) a b →
    admits (pair.1.declared.getD method) (pair :: pairs) a b
  walked : ∀ {method : Sampling} {pairs : List (Command × Command)} {a b : Scope},
    admits method pairs a b → admits method.walked pairs a b
  value : ∀ {method : Sampling} {pair : Command × Command} {pairs : List (Command × Command)}
    {a b : Scope}, admits method (pair :: pairs) a b → x.Forms pair.1 pair.2 →
    method ≠ .random ∧ admits method ((x.value, x.value) :: pairs) a b
  again : ∀ {pair : Command × Command} {pairs : List (Command × Command)} {a b : Scope},
    admits .random pairs a b → pair ∈ pairs → admits .random (pair :: pairs) a b
  free : ∀ {pairs : List (Command × Command)} {a b : Scope}, admits .random pairs a b →
    ∀ method, admits method pairs a b
  binding : ∀ {method : Sampling} {pairs : List (Command × Command)} {a b : Scope},
    admits method pairs a b → ∀ name,
      Reading (admits method) a b name (a.lookup name) (b.lookup name)
  inline : ∀ {method : Sampling} {inlined : List (Text × Command × Command)} {a b : Scope}
    {command : Command}, admits method (inlined.map Prod.snd) a b → candidate command →
    admits method [(command, command)]
      (a.push (inlineFrame a (inlined.map fun v => (v.1, v.2.1))))
      (b.push (inlineFrame b (inlined.map fun v => (v.1, v.2.2))))
  evaluate : ∀ {method : Sampling} {pairs : List (Command × Command)} {a b : Scope},
    admits method pairs a b → ∀ name text,
    admits method pairs (a.bind name (.evaluated text)) (b.bind name (.evaluated text))
  defer : ∀ {method : Sampling} {value : Command × Command} {pairs : List (Command × Command)}
    {a b : Scope}, admits method (value :: pairs) a b → ∀ name,
    admits method pairs (a.bind name (.deferred value.1 (a.lookup name)))
      (b.bind name (.deferred value.2 (b.lookup name)))

namespace Pairing

variable {x : Inclusion} {candidate : Command → Prop} (π : Pairing x candidate)
  {method : Sampling} {pair : Command × Command} {pairs others parts : List (Command × Command)}
  {a b a' b' a'' b'' : Scope}

/-- Rendering the pairs by a method makes these scopes of the first ones: whatever could be
rendered behind the pairs can be rendered there, by any method by which all of it could. -/
def settles (method : Sampling) (pairs : List (Command × Command)) (a b a' b' : Scope) : Prop :=
  ∀ other more, π.admits method (pairs ++ more) a b → π.admits other (pairs ++ more) a b →
    π.admits other more a' b'

variable {π}

/-- A pair of those admitted is admitted by itself. -/
theorem of_mem (h : π.admits method pairs a b) (hmem : pair ∈ pairs) :
    π.admits method [pair] a b := π.sub h (List.singleton_subperm_iff.2 hmem)

/-- Behind a pair that is settled the others are admitted. -/
theorem admits_rest (hsettles : π.settles method [pair] a b a' b')
    (h : π.admits method (pair :: pairs) a b) : π.admits method pairs a' b' :=
  hsettles method pairs h h

namespace settles

/-- Nothing was rendered. -/
theorem refl (pairs : List (Command × Command)) : π.settles method pairs a b a b :=
  fun _ _ _ h => π.sub h (List.sublist_append_right _ _).subperm

/-- Pairs are settled one after another. -/
theorem cons (hfirst : π.settles method [pair] a b a' b')
    (hrest : π.settles method pairs a' b' a'' b'') :
    π.settles method (pair :: pairs) a b a'' b'' :=
  fun other more h hother =>
    hrest other more (hfirst method (pairs ++ more) h h) (hfirst other (pairs ++ more) h hother)

/-- What fewer pairs settle, all of them settle. -/
theorem sub (h : π.settles method others a b a' b') (hsub : others.Subperm pairs) :
    π.settles method pairs a b a' b' :=
  fun other more hpairs hother => h other more
    (π.sub hpairs ((List.subperm_append_right more).2 hsub))
    (π.sub hother ((List.subperm_append_right more).2 hsub))

/-- What one pair of several settles, they settle. -/
theorem of_mem (h : π.settles method [pair] a b a' b') (hmem : pair ∈ pairs) :
    π.settles method pairs a b a' b' := h.sub (List.singleton_subperm_iff.2 hmem)

/-- A node leaves the scopes that its parts leave. -/
theorem node (h : π.settles method parts a b a' b') (hpaired : pair.1.Paired pair.2 parts) :
    π.settles method [pair] a b a' b' :=
  fun other more hpair hother => h other more (π.parts hpair hpaired) (π.parts hother hpaired)

/-- A node that renders by the method that it declares, if it declares one. -/
theorem declared (h : π.settles (pair.1.declared.getD method) [pair] a b a' b') :
    π.settles method [pair] a b a' b' :=
  fun other more hpair hother => h other more (π.declared hpair) hother

/-- What is settled by the method of a walk is settled. -/
theorem walked (h : π.settles method.walked pairs a b a' b') :
    π.settles method pairs a b a' b' :=
  fun other more hpairs hother => h other more (π.walked hpairs) hother

/-- Either form leaves the scopes that the part leaves. -/
theorem forms (h : π.settles method [(x.value, x.value)] a b a' b')
    (hforms : x.Forms pair.1 pair.2) :
    π.settles method [pair] a b a' b' :=
  fun other more hpair hother => h other more (π.value hpair hforms).2 (π.value hother hforms).2

end settles

/-! ## 3. The rules of the nodes -/

open Together in
/-- The walks over admitted pairs go together. The second renderer gets as deep as nothing, and
the first one comes no deeper. -/
structure Renders (π : Pairing x candidate) (known : Session → Prop) (mine yours : Renderer) :
    Prop where
  walks : ∀ {method : Sampling} {pair : Command × Command} {a b : Scope},
    π.admits method [pair] a b → ∀ ambient, Walks known (fun _ => π.settles method [pair] a b) a b
      (mine pair.1 method ambient) (yours pair.2 method ambient)
  mine_nothing : ∀ {post : Text → Scope → Scope → Prop} {a b : Scope}, post [] a b →
    ∀ method ambient, Walks known post a b (mine (.literal []) method ambient) (pure [])
  yours_nothing : ∀ method ambient, yours (.literal []) method ambient = pure []

namespace Renders

open Together

variable {known : Session → Prop} {mine yours : Renderer}

section Parts

variable (h : π.Renders known mine yours)
include h

/-! ### Several nodes -/

/-- Nodes one after another settle their pairs, by induction on their list. -/
theorem sequence (hadmits : π.admits method pairs a b) (ambient : Text) :
    Walks known (fun _ => π.settles method pairs a b) a b
      (renderSequence mine method (pairs.map Prod.fst) ambient)
      (renderSequence yours method (pairs.map Prod.snd) ambient) := by
  induction pairs generalizing a b ambient with
  | nil => exact .pure (.refl [])
  | cons pair pairs ih =>
    refine (h.walks (of_mem hadmits List.mem_cons_self) ambient).bind fun first a' b' hfirst => ?_
    refine (ih (admits_rest hfirst hadmits) (ambient ++ first)).bind fun rest _ _ hrest => ?_
    exact .pure (hfirst.cons hrest)

/-- So do several values, whose texts are kept apart. -/
theorem each (hadmits : π.admits method pairs a b) (ambient : Text) :
    Walks known (fun _ => π.settles method pairs a b) a b
      (renderEach mine method ambient (pairs.map Prod.fst))
      (renderEach yours method ambient (pairs.map Prod.snd)) := by
  induction pairs generalizing a b with
  | nil => exact .pure (.refl [])
  | cons pair pairs ih =>
    refine (h.walks (of_mem hadmits List.mem_cons_self) ambient).bind fun first a' b' hfirst => ?_
    refine (ih (admits_rest hfirst hadmits)).bind fun rest _ _ hrest => ?_
    exact .pure (hfirst.cons hrest)

/-! ### Variables -/

/-- Both read the binding of a name, or neither finds one. -/
theorem binding (hadmits : π.admits method pairs a b) (ambient name : Text) :
    Walks known (fun _ a' b' => a' = a ∧ b' = b) a b (renderBinding mine method ambient name)
      (renderBinding yours method ambient name) := by
  have hreading := π.binding hadmits name
  refine Walks.lookup ?_
  revert hreading
  generalize a.lookup name = first, b.lookup name = second
  intro hreading
  cases hreading with
  | none => exact .pure ⟨rfl, rfl⟩
  | evaluated text => exact .pure ⟨rfl, rfl⟩
  | deferred hcommand =>
    -- both commands render where the name reads as what it was before
    have hwithin : Walks known (fun (_ : Text) a' b' => a' = a ∧ b' = b) a b _ _ :=
      (h.walks hcommand ambient).within fun _ _ _ _ => ⟨rfl, rfl⟩
    exact hwithin.bind fun text _ _ hafter => .pure hafter

/-- Looking at the target of a condition leaves both scopes as they were. -/
theorem target (hadmits : π.admits method pairs a b) (ambient : Text) (key : Option Text) :
    Walks known (fun _ a' b' => a' = a ∧ b' = b) a b (renderTarget mine method ambient key)
      (renderTarget yours method ambient key) := by
  cases key with
  | none => exact .pure ⟨rfl, rfl⟩
  | some key => exact (h.binding hadmits ambient key).bind fun _ _ _ hafter => .pure hafter

/-- A condition takes the same branch on both sides, by induction on what is left of it. -/
theorem condition {branches : List (Guarded (Command × Command))} {otherwise : Command × Command}
    (hadmits : π.admits method pairs a b) (hbranches : ∀ branch ∈ branches, branch.value ∈ pairs)
    (hotherwise : otherwise ∈ pairs) (ambient : Text) :
    Walks known (fun _ => π.settles method pairs a b) a b
      (renderCondition mine method ambient otherwise.1 (branches.map (·.map Prod.fst)))
      (renderCondition yours method ambient otherwise.2 (branches.map (·.map Prod.snd))) := by
  induction branches with
  | nil =>
    exact (h.walks (of_mem hadmits hotherwise) ambient).mono fun _ _ _ hafter =>
      hafter.of_mem hotherwise
  -- the value of the target is the same on both sides, so the same branch is taken
  | cons branch branches ih =>
    refine (h.target hadmits ambient branch.guard.key).bind fun target _ _ hafter => ?_
    obtain ⟨rfl, rfl⟩ := hafter
    have hmem := hbranches branch List.mem_cons_self
    change Walks known _ _ _
      (if branch.guard.pattern.test target then mine branch.value.1 method ambient
        else renderCondition mine method ambient otherwise.1 (branches.map (·.map Prod.fst)))
      (if branch.guard.pattern.test target then yours branch.value.2 method ambient
        else renderCondition yours method ambient otherwise.2 (branches.map (·.map Prod.snd)))
    split
    · exact (h.walks (of_mem hadmits hmem) ambient).mono fun _ _ _ hafter => hafter.of_mem hmem
    · exact ih fun other hmem => hbranches other (List.mem_cons_of_mem _ hmem)

/-- Reading a variable is rendering what it stands for, its default, or nothing on both sides. -/
theorem access {fallback : Option (Command × Command)}
    (hadmits : π.admits method fallback.toList a b) (ambient name : Text) :
    Walks known (fun _ => π.settles method fallback.toList a b) a b
      (renderAccess mine method ambient name (fallback.map Prod.fst))
      (renderAccess yours method ambient name (fallback.map Prod.snd)) := by
  refine (h.binding hadmits ambient name).bind fun found _ _ hafter => ?_
  obtain ⟨rfl, rfl⟩ := hafter
  cases found with
  | some text => exact .pure (.refl _)
  | none =>
    cases fallback with
    | some pair => exact h.walks hadmits ambient
    | none => exact .fail _

/-- An assignment binds on both sides or on none. -/
theorem assignment {value : Command × Command} (hadmits : π.admits method [value] a b)
    (ambient name : Text) (overwrite immediate : Bool) :
    Walks known (fun _ => π.settles method [value] a b) a b
      (renderAssignment mine method ambient name value.1 overwrite immediate)
      (renderAssignment yours method ambient name value.2 overwrite immediate) := by
  have hbound := (π.binding hadmits name).isSome_eq
  refine Walks.lookup ?_
  rw [hbound]
  split
  · exact .pure (.refl _)
  · split
    · refine (h.walks hadmits ambient).bind fun text a' b' hafter => .bindName ?_
      exact fun other more hall hother => π.evaluate (hafter other more hall hother) name text
    · exact .bindName fun _ _ _ hother => π.defer hother name

/-- The name of a wildcard. -/
theorem name {name : WildcardName (Command × Command)} (hadmits : π.admits method name.parts a b)
    (ambient : Text) :
    Walks known (fun _ => π.settles method name.parts a b) a b
      (renderName mine method ambient (name.map Prod.fst))
      (renderName yours method ambient (name.map Prod.snd)) := by
  cases name with
  | fixed name => exact .pure (.refl _)
  | rendered pair => exact h.walks hadmits ambient

end Parts

/-! ### Choices -/

section Choices

variable {env : Environment} {tree : Text → Except WalkError Command}
  (h : π.Renders (Session.Reads env.grammar tree) mine yours)
include h

/-- A loop of draws takes the same options, by induction on how often it runs. -/
theorem drawn {options : List (Weighted (Command × Command))}
    (hadmits : π.admits .random (options.map (·.value)) a b) (ambient : Text) (count : Nat) :
    Walks (Session.Reads env.grammar tree)
      (fun _ => π.settles .random (options.map (·.value)) a b) a b
      (renderDrawn env mine (options.map (·.map Prod.fst)) ambient count)
      (renderDrawn env yours (options.map (·.map Prod.snd)) ambient count) := by
  induction count generalizing a b with
  | zero => exact .pure (.refl _)
  | succ count ih =>
    simp only [renderDrawn, weights_map, pick_map, Walk.bind_assoc, Walk.pure_bind]
    refine .take (.drawWeighted env _) fun index _ => .take (.pick options index) fun option hmem =>
      ?_
    have hvalue := List.mem_map_of_mem (f := Weighted.value) hmem
    refine (h.walks (of_mem hadmits hvalue) ambient).bind fun first a' b' hfirst => ?_
    -- the option may be drawn again, so all options stay admitted behind it
    refine (ih (admits_rest hfirst (π.again hadmits hvalue))).bind fun rest _ _ hrest => .pure ?_
    intro other more hall _
    have hagain := π.again hall (List.mem_append_left more hvalue)
    have hafter := hfirst .random _ hagain hagain
    exact hrest other more hafter (π.free hafter other)

/-- A variant draws or rotates the same options on both sides. -/
theorem variant {options : List (Weighted (Command × Command))}
    (hadmits : π.admits method (options.map (·.value)) a b) (label : Label) (least most : Nat)
    (separator ambient : Text) :
    Walks (Session.Reads env.grammar tree)
      (fun _ => π.settles method (options.map (·.value)) a b) a b
      (renderVariant env mine label (options.map (·.map Prod.fst)) least most separator
        method ambient)
      (renderVariant env yours label (options.map (·.map Prod.snd)) least most separator method
        ambient) := by
  simp only [renderVariant, weights_map, optionsAt_map]
  -- by drawing the counts agree as the sources do; in rotation the place is that of one label
  by_cases hmethod : method = .random
  · subst hmethod
    simp only [if_pos]
    split
    · exact .pure (.refl _)
    · refine .take (.drawInt env least most) fun count _ => ?_
      exact (h.drawn hadmits ambient _).bind fun parts _ _ hparts => .pure hparts
  · simp only [if_neg hmethod]
    split
    · exact .pure (.refl _)
    · refine .take (.turn label _) fun place _ => .take (.pick _ _) fun choice hchoice => ?_
      have hsub := (valuesAt_sublist hchoice).subperm
      exact (h.each (π.sub hadmits hsub) ambient).bind fun parts _ _ hparts =>
        .pure (hparts.sub hsub)

/-- A part with a chance is included on both sides or on none. -/
theorem probability {value : Command × Command} (hadmits : π.admits method [value] a b)
    (label : Label) (chance : Rat) (ambient : Text) :
    Walks (Session.Reads env.grammar tree) (fun _ => π.settles method [value] a b) a b
      (renderProbability env mine label chance value.1 method ambient)
      (renderProbability env yours label chance value.2 method ambient) := by
  refine .take (.isIncluded env label chance method) fun included _ => ?_
  cases included with
  | true => exact h.walks hadmits ambient
  | false => exact .pure (.refl _)

/-- The two forms of one part. The outcome is decided by the same turn, and left out is what the
empty option renders to. -/
theorem forms (hadmits : π.admits method [(x.value, x.value)] a b) (hmethod : method ≠ .random)
    (separator ambient : Text) :
    Walks (Session.Reads env.grammar tree) (fun _ => π.settles method [(x.value, x.value)] a b) a b
        (renderProbability env mine x.label x.chance x.value method ambient)
        (renderVariant env yours x.label x.options 1 1 separator method ambient) ∧
      Walks (Session.Reads env.grammar tree) (fun _ => π.settles method [(x.value, x.value)] a b) a
        b
        (renderVariant env mine x.label x.options 1 1 separator method ambient)
        (renderProbability env yours x.label x.chance x.value method ambient) := by
  simp only [Inclusion.renderVariant_options x env _ hmethod]
  constructor
  · refine .take (.isIncluded env x.label x.chance method) fun included _ => ?_
    cases included with
    | true => exact h.walks hadmits ambient
    | false =>
      simp only [Inclusion.outcome, Bool.false_eq_true, if_false, h.yours_nothing]
      exact .pure (.refl _)
  · refine .take (.isIncluded env x.label x.chance method) fun included _ => ?_
    cases included with
    | true => exact h.walks hadmits ambient
    | false => exact h.mine_nothing (settles.refl _) method ambient

/-! ### Wildcards -/

/-- A wildcard has one name on both sides, so it has the same candidates, which pair with
themselves. -/
theorem wildcard
    (hcandidates : ∀ name method found, wildcardTrees env tree name method = .ok found →
      ∀ command ∈ found, candidate command)
    {name : WildcardName (Command × Command)} {inlined : List (Text × Command × Command)}
    {sampling : Option Sampling}
    (hadmits : π.admits method (name.parts ++ inlined.map Prod.snd) a b)
    (heffective : π.admits (sampling.getD method).walked (name.parts ++ inlined.map Prod.snd) a b)
    (label : Label) (ambient : Text) :
    Walks (Session.Reads env.grammar tree)
      (fun _ => π.settles method (name.parts ++ inlined.map Prod.snd) a b) a b
      (renderWildcard env mine label (name.map Prod.fst) (inlined.map fun v => (v.1, v.2.1))
        sampling method ambient)
      (renderWildcard env yours label (name.map Prod.snd) (inlined.map fun v => (v.1, v.2.2))
        sampling method ambient) := by
  have hname : name.parts.Subperm (name.parts ++ inlined.map Prod.snd) :=
    (List.sublist_append_left _ _).subperm
  refine (h.name (π.sub hadmits hname) ambient).bind fun found a' b' hfound => ?_
  refine .take (.ofSession _ (asks env tree found (sampling.getD method))) fun candidates hanswer =>
    ?_
  split
  · exact .pure (hfound.sub hname)
  · refine .take (.candidateIndex env label _ _) fun index _ => .take (.pick candidates index) ?_
    intro command hmem
    have hinlined := hfound _ _ hadmits heffective
    have hcommand := π.inline hinlined (hcandidates _ _ _ hanswer command hmem)
    -- what the candidate binds stays inside of it
    have hwithin : Walks _ (fun (_ : Text) =>
        π.settles method (name.parts ++ inlined.map Prod.snd) a b) a' b' _ _ :=
      (h.walks hcommand ambient).within fun _ _ _ _ => hfound.sub hname
    exact fun s hs => hwithin s hs

/-! ## 4. The recursion -/

/-- One node: the two forms of a part, or nodes whose parts are paired. -/
theorem node
    (hcandidates : ∀ name method found, wildcardTrees env tree name method = .ok found →
      ∀ command ∈ found, candidate command)
    (hadmits : π.admits method [pair] a b) (ambient : Text) :
    Walks (Session.Reads env.grammar tree) (fun _ => π.settles method [pair] a b) a b
      (renderNode env mine pair.1 method ambient) (renderNode env yours pair.2 method ambient) := by
  have heffective := π.walked (π.declared hadmits)
  rcases π.shape hadmits with hforms | ⟨parts, hpaired⟩
  · obtain ⟨hmethod, hvalue⟩ := π.value heffective hforms
    rw [hforms.declared] at hmethod hvalue
    have hsettles : ∀ {a' b' : Scope},
        π.settles (x.sampling.getD method).walked [(x.value, x.value)] a b a' b' →
        π.settles method [pair] a b a' b' := fun h =>
      .declared (.walked (.forms (hforms.declared ▸ h) hforms))
    have hboth := h.forms hvalue hmethod Command.defaultSeparator ambient
    rcases hforms with ⟨hfirst, hsecond⟩ | ⟨hfirst, hsecond⟩
    · rw [hfirst, hsecond]
      exact hboth.1.mono fun _ _ _ => hsettles
    · rw [hfirst, hsecond]
      exact hboth.2.mono fun _ _ _ => hsettles
  · have hparts := π.parts hadmits hpaired
    have hchosen := π.parts heffective hpaired
    rw [List.append_nil] at hparts hchosen
    have hsettles : ∀ {a' b' : Scope}, π.settles method parts a b a' b' →
        π.settles method [pair] a b a' b' := fun h => h.node hpaired
    have hchooses : ∀ {a' b' : Scope},
        π.settles (pair.1.declared.getD method).walked parts a b a' b' →
        π.settles method [pair] a b a' b' := fun h => .declared (.walked (h.node hpaired))
    obtain ⟨command, other⟩ := pair
    dsimp only at hpaired ⊢
    cases hpaired with
    | literal text => exact .pure (.refl _)
    | comment text => exact .pure (.refl _)
    | sequence children => exact (h.sequence hparts ambient).mono fun _ _ _ => hsettles
    | variant label options least most separator sampling =>
      exact (h.variant hchosen label least most separator ambient).mono fun _ _ _ => hchooses
    | wildcard label name inlined sampling =>
      exact (h.wildcard hcandidates hparts hchosen label ambient).mono fun _ _ _ => hsettles
    | wrap wrapper inner =>
      -- what goes around something is rendered after it
      have hswap : List.Subperm [inner, wrapper] [wrapper, inner] := (List.Perm.swap _ _ _).subperm
      have hboth := π.sub hparts hswap
      refine (h.walks (of_mem hboth List.mem_cons_self) ambient).bind fun first a' b' hfirst => ?_
      refine (h.walks (admits_rest hfirst hboth) ambient).bind fun second _ _ hsecond => ?_
      exact .pure (hsettles ((hfirst.cons hsecond).sub hswap))
    | probability label chance value sampling =>
      exact (h.probability hchosen label chance ambient).mono fun _ _ _ => hchooses
    | condition branches otherwise =>
      refine (h.condition hparts (fun branch hmem => ?_) ?_ ambient).mono fun _ _ _ => hsettles
      · exact List.mem_append_left _ (List.mem_map_of_mem hmem)
      · exact List.mem_append_right _ (List.mem_singleton_self _)
    | access name fallback => exact (h.access hparts ambient name).mono fun _ _ _ => hsettles
    | assignment name value overwrite immediate =>
      exact (h.assignment hparts ambient name overwrite immediate).mono fun _ _ _ => hsettles

end Choices

end Renders

/-- Trees, where the first walk may go to some depth and the second one deeper. The induction is
on the depth: bindings and candidates bring in trees from elsewhere. -/
theorem renders_within (π : Pairing x candidate) {env : Environment}
    {tree : Text → Except WalkError Command}
    (hcandidates : ∀ name method found, wildcardTrees env tree name method = .ok found →
      ∀ command ∈ found, candidate command)
    {depth deep : Nat} (hdeep : depth < deep) :
    π.Renders (Session.Reads env.grammar tree) (renderWithin env depth)
      (renderWithin env deep) := by
  induction depth generalizing deep with
  | zero =>
    obtain ⟨deep, rfl⟩ := Nat.exists_eq_succ_of_ne_zero (Nat.ne_of_gt hdeep)
    exact ⟨fun _ _ => .tooDeep, fun _ _ _ => .tooDeep, fun _ _ => rfl⟩
  | succ depth ih =>
    obtain ⟨deep, rfl⟩ := Nat.exists_eq_succ_of_ne_zero (Nat.ne_of_gt (Nat.zero_lt_of_lt hdeep))
    have hparts := ih (Nat.lt_of_succ_lt_succ hdeep)
    exact ⟨fun hadmits ambient => hparts.node hcandidates hadmits ambient,
      fun hpost _ _ => .pure hpost, fun _ _ => rfl⟩

end Pairing

end PromptTemplate
