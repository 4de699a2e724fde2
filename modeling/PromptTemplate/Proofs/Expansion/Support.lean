/-
`Support.lean` -- the branches are the outcomes of drawing.

Where every choice is drawn and every draw picks one thing, the branches of a tree are what
a walk can come to: a walk never ends elsewhere, whatever is drawn (`Follows`), and every
branch has draws that lead to it (`Reaches`). Both are comparisons that pass over drawn
choices in the same way (`Comparison.Drawing`), so the rules of nodes are proved for both at
once. What is special to each is only how a draw meets a choice: a weight of zero is never
hit, and every weight above zero has a part of the unit to itself.
-/
import PromptTemplate.Proofs.Expansion.Choosing
import PromptTemplate.Proofs.Expansion.Reaching

set_option autoImplicit false

namespace PromptTemplate

/-! ## 1. Nodes -/

/-- A node that declares no method; a variant picks one of its options, none of which has a
negative weight, or has no options; and the name of a wildcard binds nothing. -/
structure Command.Drawable (command : Command) : Prop where
  undeclared : command.declared = none
  single : ∀ label options least most separator sampling,
    command = .variant label options least most separator sampling →
    (least = 1 ∧ most = 1 ∨ options = []) ∧ ∀ option ∈ options, 0 ≤ option.weight
  pureName : ∀ label name inlined sampling,
    command = .wildcard label (.rendered name) inlined sampling →
    name.Everywhere Command.BindsNothing

/-- Where wildcards without values are empty, drawing asks for the candidates that the
enumeration has. -/
theorem Command.Drawable.fits {command : Command} (h : command.Drawable) :
    Comparison.Choosing.Fits .empty .random command := by
  refine ⟨⟨.inl h.undeclared, ?_, ?_⟩, h.pureName⟩
  · rw [h.undeclared]
    rfl
  · rw [h.undeclared]
    rfl

/-! ## 2. Drawn choices -/

/-- The state after one more draw. -/
def Walking.drew (w : Walking) : Walking :=
  { w with session := { w.session with drawn := w.session.drawn + 1 } }

/-- The same environment with other draws. -/
def Environment.drawing (env : Environment) (source : Source) : Environment :=
  { env with source := source }

section Draws

variable {env : Environment} {source : Source} {w : Walking} {draw : Rat}

theorem candidateIndex_drawing (hround : env.round = .exact)
    (hdraw : source w.session.drawn = .finite draw) (label : Label) (size : Nat) :
    candidateIndex (env.drawing source) label .random size w =
      (.ok (Number.mul .exact (.finite draw) (.ofNat size)).floor.toNat?, w.drew) := by
  rw [← hdraw, ← hround]
  rfl

theorem isIncluded_drawing (env : Environment) (hdraw : source w.session.drawn = .finite draw)
    (label : Label) (chance : Rat) :
    isIncluded (env.drawing source) label chance .random w =
      (.ok (decide (draw < chance)), w.drew) := by
  have hless : decide (draw < chance) = (source w.session.drawn).lt (.finite chance) := by
    rw [hdraw]
    rfl
  rw [hless]
  rfl

theorem drawOption_drawing (hround : env.round = .exact) {options : List (Weighted Command)}
    {index : Nat} (hlt : index < options.length)
    (hindex : weightedIndex .exact source w.session.drawn
      ((options.map (·.weight)).map .finite) = (some index, w.session.drawn + 1)) :
    (Walk.drawWeighted (env.drawing source) (options.map (·.weight)) >>= Walk.pick options) w =
      (.ok options[index], w.drew) := by
  have hdrawn : Walk.drawWeighted (env.drawing source) (options.map (·.weight)) w =
      (.ok (some index), w.drew) := by
    have hexact : (env.drawing source).round = .exact := hround
    have hsource : (env.drawing source).source = source := rfl
    rw [Walk.drawWeighted, hexact, hsource, hindex]
    rfl
  rw [Walk.bind_ok hdrawn, Walk.pick_apply hlt]

/-- One draw picks an option with a weight above zero. -/
theorem exists_drawOption (hround : env.round = .exact) (hsource : source.InUnit)
    {options : List (Weighted Command)} (hnonneg : ∀ option ∈ options, 0 ≤ option.weight)
    (hpositive : ∃ option ∈ options, 0 < option.weight) (w : Walking) :
    ∃ (index : Nat) (option : Weighted Command), options[index]? = some option ∧ 0 < option.weight ∧
      (Walk.drawWeighted (env.drawing source) (options.map (·.weight)) >>= Walk.pick options) w =
        (.ok option, w.drew) := by
  obtain ⟨first, hfirst, hpos⟩ := hpositive
  obtain ⟨index, weight, hweight, hpos', hindex⟩ := exists_weightedIndex_exact
    (List.forall_mem_map.2 hnonneg) ⟨_, List.mem_map_of_mem hfirst, hpos⟩ hsource w.session.drawn
  rw [List.getElem?_map] at hweight
  obtain ⟨option, hoption, rfl⟩ := Option.map_eq_some_iff.1 hweight
  obtain ⟨hlt, rfl⟩ := List.getElem?_eq_some_iff.1 hoption
  exact ⟨index, options[index], hoption, hpos', drawOption_drawing hround hlt hindex⟩

end Draws

/-- A variant with one pick: an option by its weight, rendered as the only one. -/
theorem renderVariant_one (env : Environment) (render : Renderer) (label : Label)
    {options : List (Weighted Command)} (heligible : eligible (options.map (·.weight)) ≠ [])
    (separator ambient : Text) :
    renderVariant env render label options 1 1 separator .random ambient =
      Walk.drawWeighted env (options.map (·.weight)) >>= fun index =>
        Walk.pick options index >>= fun option =>
          renderEach render .random ambient [option.value] >>= fun rest =>
            Pure.pure (Text.join separator ([] ++ rest)) := by
  have hcount : Walk.drawInt env 1 1 = Pure.pure (.ofNat 1) := rfl
  have hloop : (Number.ofNat 1).loopCount = 1 := rfl
  unfold renderVariant
  simp only [if_true, hcount, Walk.pure_bind, hloop, renderDrawn, renderEach, Walk.bind_assoc]
  rw [if_neg (by simpa using heligible)]
  rfl

/-- A comparison that passes over all choices that are drawn. -/
structure Comparison.Drawing {ι : Type} (c : Comparison ι) (env : Environment)
    (environments : ι → Environment) (tree : Text → Except WalkError Command) : Prop
    extends c.Choosing env environments tree .random where
  /-- The walk takes one of the options by their weights. -/
  option : ∀ {settled : Scope → Prop} {scope : Scope} {options : List (Weighted Command)}
    {f : Weighted Command → Branches} {next : ι → Weighted Command → Walk Text},
    (∀ option ∈ options, 0 ≤ option.weight) → positiveOptions options ≠ [] →
    (∀ option ∈ positiveOptions options, c.holds settled scope (f option) fun i => next i option) →
    c.holds settled scope (Branches.forEach f (positiveOptions options)) fun i =>
      Walk.drawWeighted (environments i) (options.map (·.weight)) >>= fun index =>
        Walk.pick options index >>= next i

namespace Comparison.Drawing

variable {ι : Type} {c : Comparison ι} {env : Environment} {environments : ι → Environment}
  {tree : Text → Except WalkError Command} {enumerate : Enumerator} {render : ι → Renderer}
  {scope : Scope} {options : List (Weighted Command)}

theorem forEach_map {α β : Type} (g : α → β) (f : β → Branches) (members : List α) :
    Branches.forEach f (members.map g) = Branches.forEach (fun a => f (g a)) members := by
  induction members with
  | nil => rfl
  | cons a members ih => rw [List.map_cons, Branches.forEach, Branches.forEach, ih]

/-- The branches of a variant with one pick. -/
theorem variantBranches_one (heligible : eligible (options.map (·.weight)) ≠ [])
    (separator ambient : Text) :
    variantBranches enumerate options 1 1 separator scope ambient =
      Branches.forEach
        (fun option => joinedBranches enumerate separator ambient [] [option.value] scope)
        (positiveOptions options) := by
  have hchoices : variantChoices (options.map (·.weight)) 1 1 ≠ [] := by
    rw [variantChoices_one]
    exact fun hnil => heligible (List.map_eq_nil_iff.1 hnil)
  rw [← forEach_map (fun option : Weighted Command => [option.value])
      (fun values => joinedBranches enumerate separator ambient [] values scope),
    ← map_optionsAt_variantChoices_one, forEach_map, variantBranches]
  cases hcases : variantChoices (options.map (·.weight)) 1 1 with
  | nil => exact absurd hcases hchoices
  | cons choice choices => rfl

/-- A variant that picks one of its options, or has none. -/
theorem variant (hdrawing : c.Drawing env environments tree)
    (hsound : c.Sound (.everywhere Command.Drawable) enumerate render .random) (label : Label)
    (least most : Nat) (separator : Text) (sampling : Option Sampling) (ambient : Text)
    (hnode : (Command.variant label options least most separator sampling).Drawable)
    (hadmits : (Contract.everywhere Command.Drawable).admits (options.map (·.value)) scope) :
    c.holds
      ((Contract.everywhere Command.Drawable).settles
        [.variant label options least most separator sampling] scope)
      scope (variantBranches enumerate options least most separator scope ambient) fun i =>
      renderVariant (environments i) (render i) label options least most separator .random
        ambient := by
  obtain ⟨hbounds, hnonneg⟩ := hnode.single _ _ _ _ _ _ rfl
  -- bounds that may be drawn choose exactly one option, or there is no option at all
  by_cases heligible : eligible (options.map (·.weight)) = []
  · -- nothing can be chosen, on either side
    have hchoices : variantChoices (options.map (·.weight)) least most = [] := by
      rcases hbounds with ⟨rfl, rfl⟩ | rfl
      · rw [variantChoices_one, heligible, List.map_nil]
      · exact variantChoices_nil least most
    have hwalk : ∀ i, renderVariant (environments i) (render i) label options least most separator
        .random ambient = Pure.pure [] := by
      intro i
      unfold renderVariant
      simp only [if_true, heligible, List.isEmpty_nil]
    simp only [variantBranches, hchoices, hwalk]
    exact c.pure ((Contract.everywhere Command.Drawable).settles_self hadmits) []
  · obtain ⟨weight, hmem, hpos⟩ := exists_pos_of_eligible_ne_nil heligible
    obtain ⟨first, hfirst, rfl⟩ := List.mem_map.1 hmem
    obtain ⟨rfl, rfl⟩ : least = 1 ∧ most = 1 := hbounds.resolve_right (List.ne_nil_of_mem hfirst)
    rw [variantBranches_one heligible]
    simp only [renderVariant_one _ _ _ heligible]
    have hpositive : first ∈ positiveOptions options :=
      List.mem_filter.2 ⟨hfirst, decide_eq_true hpos⟩
    refine hdrawing.option hnonneg (List.ne_nil_of_mem hpositive) fun option hoption => ?_
    have hfits : [option.value].Subperm (options.map (·.value)) :=
      List.singleton_subperm_iff.2 (List.mem_map_of_mem (List.mem_of_mem_filter hoption))
    have hjoined := hsound.joined ((Contract.everywhere Command.Drawable).sub hadmits hfits)
      separator ambient []
    exact c.mono hjoined fun after hafter =>
      (Contract.everywhere Command.Drawable).node hafter hfits

/-- Trees, up to a depth. -/
theorem sound_within (hdrawing : c.Drawing env environments tree) (hpolicy : env.policy = .empty)
    (hcandidates : ∀ name found, wildcardTrees env tree name .combinatorial = .ok found →
      ∀ candidate ∈ found, candidate.Everywhere Command.Drawable) (depth : Nat) :
    c.Sound (.everywhere Command.Drawable) (enumerateWithin env .distinct depth)
      (fun i => renderWithin (environments i) depth) .random := by
  refine hdrawing.toChoosing.sound_within (fun command h => hpolicy ▸ h.fits) hcandidates ?_ depth
  intro enumerate render hsound label options least most separator sampling scope ambient
    hnode hadmits
  exact hdrawing.variant hsound label least most separator sampling ambient hnode hadmits

end Comparison.Drawing

/-! ## 3. Nothing else is drawn -/

section Choosing

variable {env : Environment} (tree : Text → Except WalkError Command)

/-- Whatever is drawn, a draw takes one of the choices that the enumeration has. -/
theorem Follows.drawing (hround : env.round = .exact) {source : Source} (hsource : source.InUnit) :
    (comparison (Session.Reads env.grammar tree)).Drawing env (fun _ =>
      env.drawing source) tree where
  fail error walk := .fail error (walk ())
  distinct h := Follows.distinct h
  asking halike hnext := Follows.asking halike hnext
  candidate {_ _ members _ _} label hmembers hnext := by
    simp only [← Walk.bind_assoc]
    refine Follows.choose (fun w hs => ?_) hnext
    -- one draw decides which member; the session it leaves is known as it was
    obtain ⟨draw, hdraw, hzero, hone⟩ := hsource w.session.drawn
    obtain ⟨place, hplace, hfound⟩ := exists_place hzero hone (List.length_pos_iff.2 hmembers)
    refine ⟨members[place], List.getElem_mem hplace, w.drew, ?_, rfl, hs⟩
    rw [Walk.bind_ok (candidateIndex_drawing hround hdraw label members.length), hfound,
      Walk.pick_apply hplace]
  outcome label chance hnext := by
    refine Follows.choose (fun w hs => ?_) hnext
    obtain ⟨draw, hdraw, hzero, hone⟩ := hsource w.session.drawn
    refine ⟨decide (draw < chance), ?_, w.drew, isIncluded_drawing env hdraw label chance, rfl, hs⟩
    by_cases hless : draw < chance
    · rw [decide_eq_true hless, true_mem_probabilityChoices]
      exact hzero.trans_lt hless
    · rw [decide_eq_false hless, false_mem_probabilityChoices]
      exact (not_lt.1 hless).trans_lt hone
  option {_ _ options _ _} hnonneg hpositive hnext := by
    simp only [← Walk.bind_assoc]
    refine Follows.choose (fun w hs => ?_) hnext
    obtain ⟨first, hfirst⟩ := List.exists_mem_of_ne_nil _ hpositive
    obtain ⟨hin, hpos⟩ := List.mem_filter.1 hfirst
    obtain ⟨index, option, hoption, hpos', hdrawn⟩ :=
      exists_drawOption hround hsource hnonneg ⟨first, hin, of_decide_eq_true hpos⟩ w
    exact ⟨option, mem_positiveOptions.2 ⟨index, hoption, hpos'⟩, w.drew, hdrawn, rfl, hs⟩

/-- Every choice that the enumeration has is taken by some draw. -/
theorem Reaches.drawing (hround : env.round = .exact) :
    (comparison (Session.Reads env.grammar tree)).Drawing env env.drawing tree where
  fail error walk := .fail error walk
  distinct h := Reaches.distinct h
  asking {_ _ name other _ _} halike hnext := by
    refine Reaches.ofSession (fun s hs => hs.wildcardCandidates env name .combinatorial)
      (fun found hfound source s hs => ?_) hnext
    have hasked := hs.wildcardCandidates env name other
    have hdrawn := Session.drawn_wildcardCandidates env name other s
    rw [wildcardTrees_ok_of_refuses halike hfound] at hasked
    exact ⟨hasked.1, hasked.2, hdrawn⟩
  candidate {_ _ members _ _} label hmembers hnext := by
    simp only [← Walk.bind_assoc]
    refine Reaches.choose (fun member hmem => ?_) hnext
    obtain ⟨place, hplace, rfl⟩ := List.getElem_of_mem hmem
    have hsize : (0 : Rat) < members.length := by exact_mod_cast Nat.zero_lt_of_lt hplace
    have hunit : (0 : Rat) ≤ place / members.length ∧ (place : Rat) / members.length < 1 :=
      ⟨by positivity, (div_lt_one hsize).2 (by exact_mod_cast hplace)⟩
    refine ⟨[place / members.length], List.forall_mem_singleton.2 hunit,
      fun source w hs hbegins => ?_⟩
    refine ⟨w.drew, ?_, rfl, hs, rfl⟩
    rw [Walk.bind_ok (candidateIndex_drawing hround hbegins.1 label members.length),
      place_of_div hplace, Walk.pick_apply hplace]
  outcome label chance hnext := by
    refine Reaches.choose (fun included hmem => ?_) hnext
    cases included with
    | true =>
      -- the least draw is below every chance that there is
      have hpos := true_mem_probabilityChoices.1 hmem
      refine ⟨[0], List.forall_mem_singleton.2 ⟨le_refl _, zero_lt_one⟩,
        fun source w hs hbegins => ?_⟩
      refine ⟨w.drew, ?_, rfl, hs, rfl⟩
      rw [isIncluded_drawing env hbegins.1, decide_eq_true hpos]
    | false =>
      -- the chance itself is the least draw that is not below it
      have hless := false_mem_probabilityChoices.1 hmem
      refine ⟨[max 0 chance], List.forall_mem_singleton.2 ⟨le_max_left _ _,
        max_lt zero_lt_one hless⟩,
        fun source w hs hbegins => ?_⟩
      refine ⟨w.drew, ?_, rfl, hs, rfl⟩
      rw [isIncluded_drawing env hbegins.1, decide_eq_false (not_lt.2 (le_max_right _ _))]
  option {_ _ options _ _} hnonneg hpositive hnext := by
    simp only [← Walk.bind_assoc]
    refine Reaches.choose (fun option hmem => ?_) hnext
    obtain ⟨index, hoption, hpos⟩ := mem_positiveOptions.1 hmem
    have hweight : (options.map (·.weight))[index]? = some option.weight := by
      rw [List.getElem?_map, hoption]
      rfl
    obtain ⟨draw, hzero, hone, hindex⟩ :=
      exists_draw_of_pos (List.forall_mem_map.2 hnonneg) hweight hpos
    obtain ⟨hlt, rfl⟩ := List.getElem?_eq_some_iff.1 hoption
    refine ⟨[draw], List.forall_mem_singleton.2 ⟨hzero, hone⟩, fun source w hs hbegins => ?_⟩
    exact ⟨w.drew, drawOption_drawing hround hlt (hindex source _ hbegins.1), rfl, hs, rfl⟩

end Choosing

/-! ## 4. Whole trees -/

/-- **The branches are the outcomes of drawing.** Take a tree in which nothing forces a
method, every variant picks one option or has none, and the names of wildcards bind nothing,
and variables and wildcard values that bring in no other nodes; wildcards without values are
empty, and numbers are exact. If the enumeration of the tree comes to an end without an
error, then no walk fails, whatever is drawn, and the texts with the bindings that walks
leave, over all draws between zero and one, are those of the branches. Of the session of the
walks only the trees of wildcard values have to be those of the enumeration. -/
theorem outcomes_eq_branches (env : Environment) (hround : env.round = .exact)
    (hpolicy : env.policy = .empty) {command : Command} {scope : Scope} (ambient : Text)
    {s walking : Session} (hcommand : command.Everywhere Command.Drawable)
    (hscope : scope.Everywhere Command.Drawable)
    (hcandidates : ∀ name values value tree, env.resolve name = .ok values → value ∈ values →
      s.candidates.tree env.grammar value = .ok tree → tree.Everywhere Command.Drawable)
    (htrees : ∀ value, walking.candidates.tree env.grammar value =
      s.candidates.tree env.grammar value)
    {branches : List Branch} {after : Session}
    (hall : (enumerate env command scope ambient).take none s = (branches, .exhausted, after)) :
    (∀ source : Source, source.InUnit → ∃ text w,
      renderOnce (env.drawing source) command .random ambient ⟨scope, walking⟩ = (.ok text, w)) ∧
    {outcome : Text × (Text → Option Binding) | ∃ branch ∈ branches,
      outcome = (branch.text, branch.scope.lookup)} =
    {outcome | ∃ source : Source, source.InUnit ∧ ∃ text w,
      renderOnce (env.drawing source) command .random ambient ⟨scope, walking⟩ = (.ok text, w) ∧
      outcome = (text, w.scope.lookup)} := by
  have hfound := everywhere_of_wildcardTrees hcandidates
  have hadmits : (Contract.everywhere Command.Drawable).admits [command] scope :=
    ⟨List.forall_mem_singleton.2 hcommand, hscope⟩
  have hreads : s.Reads env.grammar (s.candidates.tree env.grammar) := fun value => rfl
  -- every walk ends at a branch
  have hends : ∀ source : Source, source.InUnit → ∃ branch ∈ branches, ∃ w,
      renderOnce (env.drawing source) command .random ambient ⟨scope, walking⟩ =
        (.ok branch.text, w) ∧ w.scope.lookup = branch.scope.lookup := by
    intro source hsource
    obtain ⟨listing, hlisting⟩ := (Follows.drawing _ hround hsource).sound_within hpolicy hfound
      env.depthLimit command scope ambient hadmits
    obtain ⟨rfl, hnone⟩ := hlisting.denotes.of_take_none hreads hall
    obtain ⟨branch, hmem, w, hrun, hagrees, -⟩ :=
      hlisting.arrives hnone ⟨scope, walking⟩ (.refl scope) htrees
    exact ⟨branch, hmem, w, hrun, funext hagrees⟩
  refine ⟨fun source hsource => ?_, Set.ext fun outcome => ⟨?_, ?_⟩⟩
  · obtain ⟨branch, -, w, hrun, -⟩ := hends source hsource
    exact ⟨branch.text, w, hrun⟩
  · rintro ⟨branch, hmem, rfl⟩
    -- the draws that lead to the branch come next in some source
    obtain ⟨listing, hlisting⟩ := (Reaches.drawing _ hround).sound_within hpolicy hfound
      env.depthLimit command scope ambient hadmits
    obtain ⟨rfl, hnone⟩ := hlisting.denotes.of_take_none hreads hall
    obtain ⟨draws, hdraws, harrive⟩ := hlisting.arrives hnone branch hmem
    obtain ⟨source, hsource, hbegins⟩ := Source.exists_begins hdraws walking.drawn
    obtain ⟨w, hrun, hagrees, -⟩ :=
      harrive source ⟨scope, walking⟩ (.refl scope) htrees hbegins
    exact ⟨source, hsource, branch.text, w, hrun, by rw [funext hagrees]⟩
  · rintro ⟨source, hsource, text, w, hrun, rfl⟩
    obtain ⟨branch, hmem, w', hrun', hsame⟩ := hends source hsource
    cases hrun.symm.trans hrun'
    exact ⟨branch, hmem, by rw [hsame]⟩

/-- A variable is bound to one of three words, one of which has no weight; a wildcard reads
it; and a part may be left out. -/
def drawnSample : Command :=
  .wrap
    (.wrap (.probability ⟨[2], .built 0⟩ (mkRat 1 2) (.literal (units "!")) none)
      (.wildcard ⟨[1], .built 0⟩ (.fixed (units "w")) [] none))
    (.assignment (units "x")
      (.variant ⟨[0], .built 0⟩
        [⟨1, .literal (units "a")⟩, ⟨0, .literal (units "n")⟩, ⟨2, .literal (units "b")⟩] 1 1
        (units ",") none)
      true false)

/-- A wildcard with two values, exact numbers, and nothing where a wildcard has no values. -/
def drawnEnvironment : Environment where
  grammar := .standard
  source := fun _ => 0
  round := .exact
  policy := .empty
  resolve := fun name => .ok (if name = units "w" then [units "p", units "q"] else [])
  depthLimit := 6

/-- The trees of the two values: a reading of the variable, and an unknown wildcard. -/
def drawnTable : CandidateTable where
  number := 0
  trees := [(units "p", .access (units "x") none),
    (units "q", .wildcard ⟨[0], .candidate 0 (units "q")⟩ (.fixed (units "v")) [] none)]

/-- A node without parts is drawable everywhere: a variant among them has no options. -/
theorem Command.Everywhere.drawable_leaf {command : Command} (hparts : command.parts = [])
    (hdeclared : command.declared = none) : command.Everywhere Command.Drawable := by
  refine .node _ ⟨hdeclared, fun label options least most separator sampling h => ?_,
    fun label name inlined sampling h => ?_⟩ fun part hmem => ?_
  · rw [h] at hparts
    obtain rfl := List.map_eq_nil_iff.1 hparts
    exact ⟨.inr rfl, fun _ hmem => by cases hmem⟩
  · rw [h] at hparts
    cases hparts
  · rw [hparts] at hmem
    cases hmem

theorem drawnSample_drawable : drawnSample.Everywhere Command.Drawable := by
  -- the sample has an option without weight, a chance of one half and a value that is deferred
  have hpicked : (Command.variant ⟨[0], .built 0⟩
      [⟨1, .literal (units "a")⟩, ⟨0, .literal (units "n")⟩, ⟨2, .literal (units "b")⟩] 1 1
      (units ",") none).Everywhere Command.Drawable := by
    refine .node _ ⟨rfl, fun label options least most separator sampling h => ?_,
      fun _ _ _ _ h => by cases h⟩ ?_
    · cases h
      exact ⟨.inl ⟨rfl, rfl⟩, by decide +kernel⟩
    · exact List.forall_mem_cons.2 ⟨.drawable_leaf rfl rfl, List.forall_mem_cons.2
        ⟨.drawable_leaf rfl rfl, List.forall_mem_singleton.2 (.drawable_leaf rfl rfl)⟩⟩
  have hleftOut : (Command.probability ⟨[2], .built 0⟩ (mkRat 1 2) (.literal (units "!"))
      none).Everywhere Command.Drawable :=
    .node _ ⟨rfl, (fun _ _ _ _ _ _ h => by cases h), fun _ _ _ _ h => by cases h⟩
      (List.forall_mem_singleton.2 (.drawable_leaf rfl rfl))
  refine .node _ ⟨rfl, (fun _ _ _ _ _ _ h => by cases h), fun _ _ _ _ h => by cases h⟩ ?_
  refine List.forall_mem_cons.2 ⟨?_, List.forall_mem_singleton.2 ?_⟩
  · refine .node _ ⟨rfl, (fun _ _ _ _ _ _ h => by cases h), fun _ _ _ _ h => by cases h⟩ ?_
    exact List.forall_mem_cons.2 ⟨hleftOut, List.forall_mem_singleton.2 (.drawable_leaf rfl rfl)⟩
  · exact .node _ ⟨rfl, (fun _ _ _ _ _ _ h => by cases h), fun _ _ _ _ h => by cases h⟩
      (List.forall_mem_singleton.2 hpicked)

theorem drawnTable_drawable {value : Text} (hvalue : value ∈ [units "p", units "q"])
    {tree : Command} (htree : drawnTable.tree .standard value = .ok tree) :
    tree.Everywhere Command.Drawable := by
  simp only [List.mem_cons, List.not_mem_nil, or_false] at hvalue
  rcases hvalue with rfl | rfl
  · cases htree
    exact .drawable_leaf rfl rfl
  · cases htree
    exact .drawable_leaf rfl rfl

/-- The sample has six branches, and they are what its walks come to. -/
theorem outcomes_eq_branches_of_sample :
    ∃ branches after,
      (enumerate drawnEnvironment drawnSample (.root []) []).take none
          { Session.fresh 0 with candidates := drawnTable } = (branches, .exhausted, after) ∧
        branches.map (·.text) =
          [units "a", units "!a", units "b", units "!b", units "", units "!"] ∧
        (∀ source : Source, source.InUnit → ∃ text w,
          renderOnce (drawnEnvironment.drawing source) drawnSample .random []
            ⟨.root [], { Session.fresh 0 with candidates := drawnTable, drawn := 5 }⟩ =
              (.ok text, w)) ∧
        {outcome : Text × (Text → Option Binding) | ∃ branch ∈ branches,
          outcome = (branch.text, branch.scope.lookup)} =
        {outcome | ∃ source : Source, source.InUnit ∧ ∃ text w,
          renderOnce (drawnEnvironment.drawing source) drawnSample .random []
            ⟨.root [], { Session.fresh 0 with candidates := drawnTable, drawn := 5 }⟩ =
              (.ok text, w) ∧
          outcome = (text, w.scope.lookup)} := by
  refine ⟨_, _, rfl, rfl, ?_⟩
  have hscope : (Scope.root []).Everywhere Command.Drawable := fun name binding h => by cases h
  refine outcomes_eq_branches drawnEnvironment rfl rfl [] drawnSample_drawable hscope
    (fun name values value tree hresolve hvalue htree => ?_) (fun value => rfl) rfl
  refine drawnTable_drawable ?_ htree
  cases hresolve
  split at hvalue
  · exact hvalue
  · cases hvalue

end PromptTemplate
