/-
`Rotation.lean` -- a walk in rotation ends at a branch of the enumeration.

The walk mutates one scope and takes one choice at each node; the enumeration copies
scopes and takes all of them. They are compared rule by rule (`Follows`), and of the nodes
that choose only their turns are new here: wherever the counters stand, the turn of a node
is the place of one of its choices.
-/
import PromptTemplate.Proofs.Expansion.Choosing

set_option autoImplicit false

namespace PromptTemplate

/-! ## 1. Nodes and scopes -/

/-- A node that leaves its choices to be exhausted, and whose name, if it is a wildcard
with a rendered one, binds nothing. -/
structure Command.Rotatable (command : Command) : Prop where
  unforced : command.declared = none ∨ command.declared = some .combinatorial
  pureName : ∀ label name inlined sampling,
    command = .wildcard label (.rendered name) inlined sampling →
    name.Everywhere Command.BindsNothing

/-- A node that is not forced passes rotating on, and rotating and exhausting are refused
alike by the policy for wildcards without values; only drawing differs. -/
theorem Command.Rotatable.fits {command : Command} (h : command.Rotatable) (policy : EmptyPolicy) :
    Comparison.Choosing.Fits policy .cyclical command := by
  obtain ⟨hunforced, hpure⟩ := h
  refine ⟨⟨hunforced, ?_, ?_⟩, hpure⟩
  · rcases hunforced with h | h <;> rw [h] <;> rfl
  · rcases hunforced with h | h <;> rw [h] <;> cases policy <;> rfl

/-- What rendering some commands makes of a scope: its bindings still hold rotatable
commands only, and it is the same scope if none of the commands binds anything. -/
structure Settled (commands : List Command) (before after : Scope) : Prop where
  rotatable : after.Everywhere Command.Rotatable
  same : (∀ command ∈ commands, command.Everywhere Command.BindsNothing) → after = before

/-- The walks in rotation of a renderer follow the branches of an enumerator. -/
def Simulates (known : Session → Prop) (enumerate : Enumerator) (render : Renderer) : Prop :=
  ∀ command : Command, command.Everywhere Command.Rotatable →
    ∀ scope : Scope, scope.Everywhere Command.Rotatable → ∀ ambient : Text,
      Follows known (Settled [command] scope) scope (enumerate command scope ambient)
        (render command .cyclical ambient)

/-! ## 2. Turns -/

section Turns

variable {g : Grammar} {tree : Text → Except WalkError Command}

/-- A walk that takes the member whose turn it is follows the branches of all members:
wherever the counters stand, the turn is the place of one of them. -/
theorem Follows.rotate {α : Type} (label : Label) {members : List α} (hmembers : members ≠ [])
    {settled : Scope → Prop} {scope : Scope} {f : α → Branches} {next : α → Walk Text}
    (hnext : ∀ a ∈ members, Follows (Session.Reads g tree) settled scope (f a) (next a)) :
    Follows (Session.Reads g tree) settled scope (Branches.forEach f members)
      (Walk.turn label members.length >>= fun place =>
        Walk.pick members (some place) >>= next) := by
  rw [← Walk.bind_assoc]
  -- the walk only has to reach some member; which one the counters decide
  refine Follows.choose (fun w hs => ?_) hnext
  obtain ⟨place, counters, hplace, hturn⟩ :=
    Walk.turn_apply label (List.length_pos_iff.2 hmembers) w
  refine ⟨members[place], List.getElem_mem hplace,
    { w with session := { w.session with counters := counters } }, ?_, rfl, hs⟩
  rw [Walk.bind_ok hturn, Walk.pick_apply hplace]

/-- Following passes over the choices of walks in rotation. -/
theorem Follows.choosing_cyclical (env : Environment) (tree : Text → Except WalkError Command) :
    (comparison (Session.Reads env.grammar tree)).Choosing env (fun _ => env) tree .cyclical where
  fail error walk := .fail error (walk ())
  distinct h := Follows.distinct h
  asking halike hnext := Follows.asking halike hnext
  candidate label hmembers hnext := by
    have hrotate := Follows.rotate label hmembers hnext
    simp only [candidateIndex, reduceCtorEq, if_false, Walk.bind_assoc]
    exact hrotate
  outcome label chance hnext := by
    have hrotate := Follows.rotate label (probabilityChoices_ne_nil chance) hnext
    simp only [isIncluded, reduceCtorEq, if_false, Walk.bind_assoc]
    exact hrotate

/-- The choices of a variant. Both sides list them alike, so the place of a turn is
the place of a branch. -/
theorem Follows.variant_cyclical {env : Environment} {enumerate : Enumerator} {render : Renderer}
    {p : Command → Prop}
    (hsound : (comparison (Session.Reads env.grammar tree)).Sound (.everywhere p) enumerate
      (fun _ => render) .cyclical)
    (label : Label) (options : List (Weighted Command)) (least most : Nat) (separator : Text)
    (sampling : Option Sampling) (scope : Scope) (ambient : Text)
    (hadmits : (Contract.everywhere p).admits (options.map (·.value)) scope) :
    Follows (Session.Reads env.grammar tree)
      ((Contract.everywhere p).settles [.variant label options least most separator sampling] scope)
      scope (variantBranches enumerate options least most separator scope ambient)
      (renderVariant env render label options least most separator .cyclical ambient) := by
  unfold variantBranches renderVariant
  rw [if_neg (by decide)]
  have hfits : ∀ choice ∈ variantChoices (options.map (·.weight)) least most,
      (optionsAt options choice).Subperm (options.map (·.value)) :=
    fun choice hmem => (optionsAt_sublist hmem).subperm
  cases hchoices : variantChoices (options.map (·.weight)) least most with
  | nil => exact .pure ((Contract.everywhere p).settles_self hadmits) []
  | cons choice choices =>
    rw [hchoices] at hfits
    -- the label is turned once over as many places as there are choices
    simp only [List.isEmpty_cons, Bool.false_eq_true, if_false]
    refine Follows.rotate label (List.cons_ne_nil _ _) fun choice hmem => ?_
    have hjoined :=
      hsound.joined ((Contract.everywhere p).sub hadmits (hfits choice hmem)) separator
      ambient []
    exact hjoined.mono fun after hafter => (Contract.everywhere p).node hafter (hfits choice hmem)

end Turns

/-! ## 3. The recursion -/

/-- Trees, up to a depth. -/
theorem simulates_within {env : Environment} {tree : Text → Except WalkError Command}
    (hcandidates : ∀ name found, wildcardTrees env tree name .combinatorial = .ok found →
      ∀ candidate ∈ found, candidate.Everywhere Command.Rotatable) (depth : Nat) :
    Simulates (Session.Reads env.grammar tree) (enumerateWithin env .distinct depth)
      (renderWithin env depth) := by
  have hsound := (Follows.choosing_cyclical env tree).sound_within
    (fun command h => h.fits env.policy) hcandidates
    (fun hsound label options least most separator sampling scope ambient _ =>
      Follows.variant_cyclical hsound label options least most separator sampling scope ambient)
    depth
  intro command hcommand scope hscope ambient
  have hfollows := hsound command scope ambient ⟨List.forall_mem_singleton.2 hcommand, hscope⟩
  exact Follows.mono hfollows fun after hafter => ⟨hafter.1, hafter.2⟩

/-! ## 4. Whole trees -/

/-- **A walk in rotation is one of the branches.** Take a tree in which nothing forces
drawing or rotating, and variables and wildcard values that bring in no such node
either. If its enumeration comes to an end without an error, then the walk in rotation
does not fail, wherever the counters stand, and some branch has its text and answers
every name as the scope does that it leaves. Of the session of the walk only the trees
of wildcard values have to be those of the enumeration. -/
theorem exists_branch_of_rotation (env : Environment) {command : Command} {scope : Scope}
    (ambient : Text) {s walking : Session} (hcommand : command.Everywhere Command.Rotatable)
    (hscope : scope.Everywhere Command.Rotatable)
    (hcandidates : ∀ name values value tree, env.resolve name = .ok values → value ∈ values →
      s.candidates.tree env.grammar value = .ok tree → tree.Everywhere Command.Rotatable)
    (htrees : ∀ value, walking.candidates.tree env.grammar value =
      s.candidates.tree env.grammar value)
    {branches : List Branch} {after : Session}
    (hall : (enumerate env command scope ambient).take none s = (branches, .exhausted, after)) :
    ∃ text w, renderOnce env command .cyclical ambient ⟨scope, walking⟩ = (.ok text, w) ∧
      ∃ branch ∈ branches, branch.text = text ∧
        ∀ name, branch.scope.lookup name = w.scope.lookup name := by
  have hfound := everywhere_of_wildcardTrees hcandidates
  have hreads : s.Reads env.grammar (s.candidates.tree env.grammar) := fun value => rfl
  obtain ⟨listing, hdenotes, -, harrives⟩ :=
    simulates_within hfound env.depthLimit command hcommand scope hscope ambient
  -- the branches that were drawn are the listing that the enumeration denotes
  obtain ⟨rfl, hnone⟩ := hdenotes.of_take_none hreads hall
  obtain ⟨branch, hmem, w, hrun, hagrees, -, -⟩ :=
    harrives hnone ⟨scope, walking⟩ (.refl scope) htrees
  exact ⟨branch.text, w, hrun, branch, hmem, rfl, fun name => (hagrees name).symm⟩

/-- A variable is bound to a part that may be left out, then extended by itself, and
then names a wildcard. -/
def rotatingSample : Command :=
  .variant ⟨[0], .built 0⟩
    [⟨1, .assignment (units "x")
        (.probability ⟨[1], .built 0⟩ (mkRat 1 2) (.literal (units "a")) none) true false⟩,
      ⟨1, .assignment (units "x")
        (.wrap (.access (units "x") none) (.literal (units "b"))) true true⟩,
      ⟨1, .wildcard ⟨[2], .built 0⟩ (.rendered (.access (units "x") none))
        [(units "y", .literal (units "c"))] (some .combinatorial)⟩]
    3 3 (units ",") none

/-- A wildcard with values under one of the two names that the sample asks for. -/
def rotatingEnvironment : Environment where
  grammar := .standard
  source := fun _ => 0
  round := .exact
  policy := .automatic
  resolve := fun name => .ok (if name = units "ab" then [units "p", units "q"] else [])
  depthLimit := 6

/-- The trees of the two values: an inline variable, and a test of the variable that
was extended. -/
def rotatingTable : CandidateTable where
  number := 0
  trees := [(units "p", .access (units "y") none),
    (units "q", .condition
      [⟨⟨some (units "x"), units "b", ⟨.unit 98, 0⟩⟩, .access (units "x") none⟩]
      (.literal (units "n")))]

/-- A node without parts is rotatable everywhere. -/
theorem Command.Everywhere.rotatable_leaf {command : Command} (hparts : command.parts = [])
    (hdeclared : command.declared = none) : command.Everywhere Command.Rotatable := by
  refine .node _ ⟨.inl hdeclared, fun label name inlined sampling h => ?_⟩ fun part hmem => ?_
  · rw [h] at hparts
    cases hparts
  · rw [hparts] at hmem
    cases hmem

theorem rotatingSample_rotatable : rotatingSample.Everywhere Command.Rotatable := by
  -- the sample defers a chance, reads it back into its own name and looks the result up
  have hdeferred : (Command.assignment (units "x")
      (.probability ⟨[1], .built 0⟩ (mkRat 1 2) (.literal (units "a")) none)
      true false).Everywhere Command.Rotatable := by
    refine .node _ ⟨.inl rfl, nofun⟩ (List.forall_mem_singleton.2 ?_)
    exact .node _ ⟨.inl rfl, nofun⟩ (List.forall_mem_singleton.2 (.rotatable_leaf rfl rfl))
  have hextended : (Command.assignment (units "x")
      (.wrap (.access (units "x") none) (.literal (units "b")))
      true true).Everywhere Command.Rotatable := by
    refine .node _ ⟨.inl rfl, nofun⟩ (List.forall_mem_singleton.2 (.node _ ⟨.inl rfl, nofun⟩ ?_))
    exact List.forall_mem_cons.2 ⟨.rotatable_leaf rfl rfl,
      List.forall_mem_singleton.2 (.rotatable_leaf rfl rfl)⟩
  have hnamed : (Command.wildcard ⟨[2], .built 0⟩ (.rendered (.access (units "x") none))
      [(units "y", .literal (units "c"))] (some .combinatorial)).Everywhere Command.Rotatable := by
    refine .node _ ⟨.inr rfl, fun label name inlined sampling h => ?_⟩ ?_
    · cases h
      exact .node _ trivial nofun
    · exact List.forall_mem_cons.2 ⟨.rotatable_leaf rfl rfl,
        List.forall_mem_singleton.2 (.rotatable_leaf rfl rfl)⟩
  refine .node _ ⟨.inl rfl, nofun⟩ ?_
  exact List.forall_mem_cons.2 ⟨hdeferred, List.forall_mem_cons.2 ⟨hextended,
    List.forall_mem_singleton.2 hnamed⟩⟩

theorem rotatingTable_rotatable {value : Text} (hvalue : value ∈ [units "p", units "q"])
    {tree : Command} (htree : rotatingTable.tree .standard value = .ok tree) :
    tree.Everywhere Command.Rotatable := by
  simp only [List.mem_cons, List.not_mem_nil, or_false] at hvalue
  rcases hvalue with rfl | rfl
  · cases htree
    exact .rotatable_leaf rfl rfl
  · cases htree
    refine .node _ ⟨.inl rfl, nofun⟩ (List.forall_mem_cons.2 ⟨.rotatable_leaf rfl rfl, ?_⟩)
    exact List.forall_mem_singleton.2 (.rotatable_leaf rfl rfl)

/-- The sample has three branches (`,,` and `,,c` and `,,ab`), and a walk that begins
with its counters anywhere ends at one of them. -/
theorem exists_branch_of_rotation_of_sample :
    ∃ branches after,
      (enumerate rotatingEnvironment rotatingSample (.root []) []).take none
          { Session.fresh 0 with candidates := rotatingTable } = (branches, .exhausted, after) ∧
        branches.map (·.text) = [units ",,", units ",,c", units ",,ab"] ∧
        ∃ text w, renderOnce rotatingEnvironment rotatingSample .cyclical []
            ⟨.root [],
              { Session.fresh 0 with
                candidates := rotatingTable
                counters := ⟨[(⟨[2], .built 0⟩, 7)]⟩ }⟩ = (.ok text, w) ∧
          ∃ branch ∈ branches, branch.text = text ∧
            ∀ name, branch.scope.lookup name = w.scope.lookup name := by
  refine ⟨_, _, rfl, rfl, ?_⟩
  have hscope : (Scope.root []).Everywhere Command.Rotatable := fun name binding h => by cases h
  refine exists_branch_of_rotation rotatingEnvironment [] rotatingSample_rotatable hscope
    (fun name values value tree hresolve hvalue htree => ?_) (fun value => rfl) rfl
  refine rotatingTable_rotatable ?_ htree
  cases hresolve
  split at hvalue
  · exact hvalue
  · cases hvalue

end PromptTemplate
