/-
`Cycles.lean` -- rendering in rotation follows the closed form.

Each rotating node has a counter of its own, which moves only when the node is visited. The
invariant says of every node of a tree where its counter stands, given how often the tree
was rendered (`Stands`): each part has been visited as often as the choices of its node held
it. Rendering a tree once gives the text of its turn and leaves the counters as one turn
later (`Turns.node`, `Turns.of_within`), because no two nodes share a counter and so nothing
that is rendered in between moves it.
-/
import PromptTemplate.Generation.Prompts
import PromptTemplate.Proofs.Command.Labels
import PromptTemplate.Proofs.Expansion.Following
import PromptTemplate.Proofs.Expansion.Turns
import PromptTemplate.Proofs.Template.Parsing
import PromptTemplate.Proofs.Template.Places

set_option autoImplicit false

namespace PromptTemplate

/-! ## 1. Counters -/

/-- Only the positions of these labels differ. -/
def Counters.SameOff (labels : List Label) (c d : Counters) : Prop :=
  ∀ label, label ∉ labels → d.position label = c.position label

namespace Counters

variable {c d e : Counters} {labels more : List Label}

theorem SameOff.refl (c : Counters) (labels : List Label) : c.SameOff labels c := fun _ _ => rfl

theorem SameOff.mono (h : SameOff labels c d) (hsub : labels ⊆ more) : SameOff more c d :=
  fun label hlabel => h label fun hmem => hlabel (hsub hmem)

theorem SameOff.trans (h : SameOff labels c d) (h' : SameOff more d e) :
    SameOff (labels ++ more) c e := by
  intro label hlabel
  rw [List.mem_append, not_or] at hlabel
  rw [h' label hlabel.2, h label hlabel.1]

theorem lookup_setIn (label other : Label) (place : Nat) (positions : List (Label × Nat)) :
    (setIn label place positions).lookup other =
      if other = label then some place else positions.lookup other := by
  -- the first entry of the label is replaced; whether `other` is that label decides each case
  induction positions with
  | nil =>
    by_cases h : other = label
    · simp [setIn, h]
    · simp [setIn, h, List.lookup_cons, beq_false_of_ne h]
  | cons entry positions ih =>
    obtain ⟨name, old⟩ := entry
    by_cases hname : name = label
    · by_cases h : other = label
      · simp [setIn, hname, h]
      · simp [setIn, hname, h, List.lookup_cons, beq_false_of_ne h]
    · by_cases h : other = label
      · subst h
        simp [setIn, hname, List.lookup_cons, beq_false_of_ne (Ne.symm hname), ih]
      · simp [setIn, hname, h, List.lookup_cons, ih]

/-- A turn of a node among some choices: its place, and the next one for the visit after. -/
theorem next_eq (c : Counters) (label : Label) {size : Nat} (hsize : 0 < size) :
    (c.next label size).1 = c.position label % size ∧
      (c.next label size).2.position label = (c.position label % size + 1) % size ∧
      c.SameOff [label] (c.next label size).2 := by
  rw [next, if_neg (Nat.ne_of_gt hsize)]
  refine ⟨rfl, ?_, fun other hother => ?_⟩
  · rw [position, lookup_setIn, if_pos rfl, Option.getD_some]
  · rw [position, lookup_setIn, if_neg fun h => hother (List.mem_singleton.2 h), position]

end Counters

/-! ## 2. Where the counters of a tree stand -/

/-- A node that takes part in rotation as the tree says, and neither reads nor binds
anything: no wildcard, no condition, no variable, and no method of its own. -/
def Command.isPlain : Command → Bool
  | .literal _ | .comment _ | .sequence _ | .wrap _ _ => true
  | .variant _ _ _ _ _ sampling | .probability _ _ _ sampling => sampling.isNone
  | _ => false

/-- The counters stand as they do after the tree was rendered `i` times: at a node that has
choices the position is the place of turn `i`, and each part was rendered as often as the
choices of those turns held it. -/
inductive Stands (c : Counters) : Command → Nat → Prop
  | literal (text : Text) (i : Nat) : Stands c (.literal text) i
  | comment (text : Text) (i : Nat) : Stands c (.comment text) i
  | sequence (children : List Command) (i : Nat) (below : ∀ child ∈ children, Stands c child i) :
    Stands c (.sequence children) i
  | wrap (wrapper inner : Command) (i : Nat) (around : Stands c wrapper i)
    (below : Stands c inner i) :
    Stands c (.wrap wrapper inner) i
  | variant (label : Label) (options : List (Weighted Command)) (least most : Nat)
      (separator : Text) (i : Nat)
      (here : variantChoices (options.map (·.weight)) least most ≠ [] →
        c.position label % (variantChoices (options.map (·.weight)) least most).length =
          i % (variantChoices (options.map (·.weight)) least most).length)
      (below : ∀ index option, options[index]? = some option → Stands c option.value
        (visits (·.contains index) (variantChoices (options.map (·.weight)) least most) i)) :
    Stands c (.variant label options least most separator none) i
  | probability (label : Label) (chance : Rat) (value : Command) (i : Nat)
      (here : c.position label % (probabilityChoices (.finite chance)).length =
        i % (probabilityChoices (.finite chance)).length)
      (below : Stands c value (visits id (probabilityChoices (.finite chance)) i)) :
    Stands c (.probability label chance value none) i

namespace Stands

variable {c d : Counters} {command : Command} {i : Nat}

/-- Before any visit all counters stand at the beginning. -/
theorem start (h : command.Everywhere (·.isPlain = true)) : Stands .empty command 0 := by
  -- no counter has an entry yet, and every node under a node visited no times is visited no times
  induction h with
  | node command here _ ih =>
    cases command with
    | literal text => exact .literal text 0
    | comment text => exact .comment text 0
    | sequence children => exact .sequence children 0 ih
    | variant label options least most separator sampling =>
      obtain rfl : sampling = none := Option.isNone_iff_eq_none.1 here
      refine .variant label options least most separator 0 (fun _ =>
        rfl) fun index option hoption => ?_
      rw [visits_zero]
      exact ih _ (List.mem_map_of_mem (List.mem_of_getElem? hoption))
    | wrap wrapper inner =>
      exact .wrap wrapper inner 0 (ih wrapper (by simp [Command.parts]))
        (ih inner (by simp [Command.parts]))
    | probability label chance value sampling =>
      obtain rfl : sampling = none := Option.isNone_iff_eq_none.1 here
      refine .probability label chance value 0 rfl ?_
      rw [visits_zero]
      exact ih value (List.mem_singleton_self _)
    | _ => cases here

/-- Only the counters of the tree's own labels count. -/
theorem congr (h : Stands c command i)
    (hsame : ∀ label ∈ command.labels, d.position label = c.position label) :
    Stands d command i := by
  -- every label below a node is one of the node's labels, so agreement on the whole tree is enough
  induction h with
  | literal text i => exact .literal text i
  | comment text i => exact .comment text i
  | sequence children i _ ih =>
    rw [Command.labels_eq] at hsame
    refine .sequence children i fun child hmem => ih child hmem fun label hlabel => hsame label ?_
    exact List.mem_flatMap.2 ⟨child, hmem, hlabel⟩
  | wrap wrapper inner i _ _ ihw ihi =>
    rw [Command.labels_eq] at hsame
    refine .wrap wrapper inner i (ihw fun label hlabel => hsame label ?_)
      (ihi fun label hlabel => hsame label ?_)
    · exact List.mem_flatMap.2 ⟨wrapper, by simp [Command.parts], hlabel⟩
    · exact List.mem_flatMap.2 ⟨inner, by simp [Command.parts], hlabel⟩
  | variant label options least most separator i here _ ih =>
    rw [Command.labels_eq] at hsame
    refine .variant label options least most separator i (fun hchoices => ?_)
      fun index option hoption => ih index option hoption fun label hlabel => hsame label ?_
    · rw [hsame label List.mem_cons_self]
      exact here hchoices
    · exact List.mem_cons_of_mem _ (List.mem_flatMap.2
        ⟨_, List.mem_map_of_mem (List.mem_of_getElem? hoption), hlabel⟩)
  | probability label chance value i here _ ih =>
    rw [Command.labels_eq] at hsame
    refine .probability label chance value i ?_ (ih fun label hlabel => hsame label ?_)
    · rw [hsame label List.mem_cons_self]
      exact here
    · exact List.mem_cons_of_mem _ (List.mem_flatMap.2 ⟨value, List.mem_singleton_self _, hlabel⟩)

/-- What moves other counters leaves those of the tree. -/
theorem of_sameOff {labels : List Label} (h : Stands c command i) (hsame : c.SameOff labels d)
    (hdisjoint : command.labels.Disjoint labels) : Stands d command i :=
  h.congr fun label hmem => hsame label fun hlabel => hdisjoint hmem hlabel

end Stands

/-! ## 3. One turn -/

/-- Rendering the tree, if its counters stand somewhere and no two nodes share one, gives
the text of that turn and leaves the counters one turn later; all others stay. -/
def Turns (render : Renderer) (command : Command) : Prop :=
  command.labels.Nodup → ∀ (i : Nat) (ambient : Text) (w : Walking),
    Stands w.session.counters command i →
    ∃ after, render command .cyclical ambient w = (.ok (command.rotation i), after) ∧
      Stands after.session.counters command (i + 1) ∧
      w.session.counters.SameOff command.labels after.session.counters

/-- Nodes are ready for their turns: their counters stand there, and they share none. -/
structure Ready (c : Counters) (turns : List (Command × Nat)) : Prop where
  nodup : (turns.flatMap (·.1.labels)).Nodup
  stands : ∀ turn ∈ turns, Stands c turn.1 turn.2

/-- Nodes have had their turns, and nothing else has moved. -/
structure Moved (c : Counters) (turns : List (Command × Nat)) (d : Counters) : Prop where
  stands : ∀ turn ∈ turns, Stands d turn.1 (turn.2 + 1)
  same : c.SameOff (turns.flatMap (·.1.labels)) d

/-- No node has moved if there is none. -/
theorem Moved.nil (c : Counters) : Moved c [] c := ⟨nofun, .refl c _⟩

namespace Turns

variable {render : Renderer} {turn : Command × Nat} {turns : List (Command × Nat)} {w : Walking}

/-- The first of several nodes has its turn. The others are ready still, because they share
no counter with it, and when they have had theirs it has not moved again. -/
theorem first (hturn : Turns render turn.1) (hready : Ready w.session.counters (turn :: turns))
    (ambient : Text) :
    ∃ between, render turn.1 .cyclical ambient w = (.ok (turnText turn), between) ∧
      Ready between.session.counters turns ∧
      ∀ d, Moved between.session.counters turns d → Moved w.session.counters (turn :: turns) d := by
  obtain ⟨hnodup, hstands⟩ := hready
  rw [List.flatMap_cons, List.nodup_append'] at hnodup
  obtain ⟨hmine, hothers, hdisjoint⟩ := hnodup
  obtain ⟨between, hrun, hstood, hsame⟩ :=
    hturn hmine turn.2 ambient w (hstands turn List.mem_cons_self)
  refine ⟨between, hrun, ⟨hothers, fun other hmem => ?_⟩, fun d hmoved => ⟨?_, ?_⟩⟩
  · refine (hstands other (List.mem_cons_of_mem _ hmem)).of_sameOff hsame fun label hlabel hin => ?_
    exact hdisjoint hin (List.mem_flatMap.2 ⟨other, hmem, hlabel⟩)
  · exact List.forall_mem_cons.2 ⟨hstood.of_sameOff hmoved.same hdisjoint, hmoved.stands⟩
  · rw [List.flatMap_cons]
    exact hsame.trans hmoved.same

variable (hturns : ∀ turn ∈ turns, Turns render turn.1) (hready : Ready w.session.counters turns)
include hturns hready

/-- Nodes one after another. -/
theorem sequence (ambient : Text) :
    ∃ after, renderSequence render .cyclical (turns.map (·.1)) ambient w =
        (.ok (turns.map turnText).flatten, after) ∧
      Moved w.session.counters turns after.session.counters := by
  induction turns generalizing ambient w with
  | nil => exact ⟨w, rfl, .nil _⟩
  | cons turn turns ih =>
    obtain ⟨between, hfirst, hothers, hmoved⟩ :=
      first (hturns turn List.mem_cons_self) hready ambient
    obtain ⟨after, hrest, hlast⟩ :=
      ih (fun other hmem => hturns other (List.mem_cons_of_mem _ hmem))
      hothers (ambient ++ turnText turn)
    refine ⟨after, ?_, hmoved _ hlast⟩
    rw [List.map_cons, renderSequence, Walk.bind_ok hfirst, Walk.bind_ok hrest]
    rfl

/-- Nodes with the same text before them. -/
theorem each (ambient : Text) :
    ∃ after, renderEach render .cyclical ambient (turns.map (·.1)) w =
        (.ok (turns.map turnText), after) ∧
      Moved w.session.counters turns after.session.counters := by
  induction turns generalizing w with
  | nil => exact ⟨w, rfl, .nil _⟩
  | cons turn turns ih =>
    obtain ⟨between, hfirst, hothers, hmoved⟩ :=
      first (hturns turn List.mem_cons_self) hready ambient
    obtain ⟨after, hrest, hlast⟩ :=
      ih (fun other hmem => hturns other (List.mem_cons_of_mem _ hmem))
      hothers
    refine ⟨after, ?_, hmoved _ hlast⟩
    rw [List.map_cons, renderEach, Walk.bind_ok hfirst, Walk.bind_ok hrest]
    rfl

end Turns

/-! ### Nodes that choose -/

/-- Options at different places share no label. -/
theorem disjoint_labels {options : List (Weighted Command)}
    (hnodup : (options.flatMap (·.value.labels)).Nodup) {index other : Nat} (hne : index ≠ other)
    {mine yours : Weighted Command} (hmine : options[index]? = some mine)
    (hyours : options[other]? = some yours) : mine.value.labels.Disjoint yours.value.labels := by
  have hpairwise := List.pairwise_iff_getElem.1 (List.nodup_flatMap.1 hnodup).2
  obtain ⟨hindex, rfl⟩ := List.getElem?_eq_some_iff.1 hmine
  obtain ⟨hother, rfl⟩ := List.getElem?_eq_some_iff.1 hyours
  rcases Nat.lt_or_gt_of_ne hne with hlt | hlt
  · exact hpairwise index other hindex hother hlt
  · exact (hpairwise other index hother hindex hlt).symm

section Chosen

variable {options : List (Weighted Command)} {choices : List (List Nat)} {choice : List Nat}
  {i : Nat}
  (hchoice : choices[i % choices.length]? = some choice)

theorem labels_subset {index : Nat} {option : Weighted Command}
    (hoption : options[index]? = some option) :
    option.value.labels ⊆ options.flatMap (·.value.labels) := fun _ hmem =>
  List.mem_flatMap.2 ⟨option, List.mem_of_getElem? hoption, hmem⟩

include hchoice

theorem map_fst_chosenTurns :
    (chosenTurns options choices i).map (·.1) = optionsAt options choice := by
  rw [chosenTurns, hchoice, Option.getD_some, List.map_filterMap, optionsAt]
  simp only [Option.map_map, Function.comp_def]

theorem mem_chosenTurns {turn : Command × Nat} :
    turn ∈ chosenTurns options choices i ↔ ∃ index ∈ choice, ∃ option, options[index]? =
      some option ∧
      (option.value, visits (·.contains index) choices i) = turn := by
  rw [chosenTurns, hchoice, Option.getD_some, List.mem_filterMap]
  simp only [Option.map_eq_some_iff]

theorem chosen_subset :
    (chosenTurns options choices i).flatMap (·.1.labels) ⊆ options.flatMap (·.value.labels) := by
  intro label hmem
  obtain ⟨turn, hturn, hlabel⟩ := List.mem_flatMap.1 hmem
  obtain ⟨index, -, option, hoption, rfl⟩ := (mem_chosenTurns hchoice).1 hturn
  exact labels_subset hoption hlabel

variable {c d : Counters} (hoptions : (options.flatMap (·.value.labels)).Nodup)
  (hstands : ∀ index option, options[index]? = some option →
    Stands c option.value (visits (·.contains index) choices i))
include hoptions hstands

/-- The options of a choice are ready, because it takes none twice. -/
theorem Ready.chosen (hnodup : choice.Nodup) : Ready c (chosenTurns options choices i) := by
  refine ⟨List.nodup_flatMap.2 ⟨fun turn hmem => ?_, ?_⟩, fun turn hmem => ?_⟩
  · obtain ⟨index, -, option, hoption, rfl⟩ := (mem_chosenTurns hchoice).1 hmem
    exact (List.nodup_flatMap.1 hoptions).1 option (List.mem_of_getElem? hoption)
  · rw [chosenTurns, hchoice, Option.getD_some]
    refine List.Pairwise.filterMap _ (fun index other hne mine hmine yours hyours => ?_) hnodup
    obtain ⟨option, hoption, rfl⟩ := Option.map_eq_some_iff.1 hmine
    obtain ⟨option', hoption', rfl⟩ := Option.map_eq_some_iff.1 hyours
    exact disjoint_labels hoptions hne hoption hoption'
  · obtain ⟨index, -, option, hoption, rfl⟩ := (mem_chosenTurns hchoice).1 hmem
    exact hstands index option hoption

/-- After the turn of a choice each option has one more visit if the choice held it. -/
theorem Moved.chosen (hmoved : Moved c (chosenTurns options choices i) d) :
    ∀ index option, options[index]? = some option →
      Stands d option.value (visits (·.contains index) choices (i + 1)) := by
  intro index option hoption
  rw [visits_succ _ hchoice]
  by_cases hmem : choice.contains index = true
  · rw [if_pos hmem]
    exact hmoved.stands _
      ((mem_chosenTurns hchoice).2 ⟨index, List.contains_iff_mem.1 hmem, option, hoption, rfl⟩)
  · rw [if_neg hmem]
    refine (hstands index option hoption).of_sameOff hmoved.same fun label hlabel hin => ?_
    obtain ⟨turn, hturn, hyours⟩ := List.mem_flatMap.1 hin
    obtain ⟨other, hother, option', hoption', rfl⟩ := (mem_chosenTurns hchoice).1 hturn
    have hne : index ≠ other := fun heq => hmem (List.contains_iff_mem.2 (heq ▸ hother))
    exact disjoint_labels hoptions hne hoption hoption' hlabel hyours

end Chosen

namespace Turns

variable {render : Renderer} {w : Walking}

/-- A turn of a node: the place of the choice, and the next place. -/
theorem turn_apply (label : Label) {size i : Nat} (hsize : 0 < size)
    (hhere : w.session.counters.position label % size = i % size) :
    ∃ after, Walk.turn label size w = (.ok (i % size), after) ∧
      after.session.counters.position label % size = (i + 1) % size ∧
      w.session.counters.SameOff [label] after.session.counters := by
  obtain ⟨hplace, hnext, hsame⟩ := w.session.counters.next_eq label hsize
  refine ⟨{ w with session := { w.session with
    counters := (w.session.counters.next label size).2 } }, ?_, ?_, hsame⟩
  · rw [Walk.turn, ← hhere, ← hplace]
  · rw [hnext, hhere, Nat.mod_mod, Nat.mod_add_mod]

theorem variant (env : Environment) {label : Label} {options : List (Weighted Command)}
    {least most : Nat} {separator : Text} (hturns : ∀ option ∈ options, Turns render option.value) :
    Turns (renderNode env render) (.variant label options least most separator none) := by
  intro hnodup i ambient w hstands
  have hlabels : (Command.variant label options least most separator none).labels =
      label :: options.flatMap (·.value.labels) := by
    rw [Command.labels_eq, Command.parts, List.flatMap_map]
    rfl
  rw [hlabels, List.nodup_cons] at hnodup
  obtain ⟨hlabel, hoptions⟩ := hnodup
  have hnode : renderNode env render (.variant label options least most separator none) .cyclical
      ambient = renderVariant env render label options least most separator .cyclical ambient := rfl
  rw [hlabels, Command.rotation_variant, hnode]
  have hfits : ∀ choice ∈ variantChoices (options.map (·.weight)) least most, choice.Nodup :=
    fun choice => nodup_of_mem_variantChoices
  cases hstands with
  | variant _ _ _ _ _ _ here below =>
    rw [renderVariant, if_neg (by decide)]
    -- from here on it only counts that no choice takes an option twice
    generalize hchoices : variantChoices (options.map (·.weight)) least most = choices at *
    by_cases hnone : choices = []
    · subst hnone
      refine ⟨w, rfl, .variant _ _ _ _ _ _ (fun h => absurd hchoices h) ?_, .refl _ _⟩
      rw [hchoices]
      intro index option hoption
      simpa [visits] using below index option hoption
    · have hpos := List.length_pos_iff.2 hnone
      have hplace := Nat.mod_lt i hpos
      have hchoice := List.getElem?_eq_getElem hplace
      obtain ⟨between, hturn, hnext, hsame⟩ := turn_apply label hpos (here hnone)
      have hunmoved : ∀ index option, options[index]? = some option →
          Stands between.session.counters option.value (visits (·.contains index) choices i) :=
        fun index option hoption => (below index option hoption).of_sameOff hsame
          (List.disjoint_singleton.2 fun hmem => hlabel (labels_subset hoption hmem))
      obtain ⟨after, hrun, hmoved⟩ := each (fun turn hmem => by
          obtain ⟨index, -, option, hoption, rfl⟩ := (mem_chosenTurns hchoice).1 hmem
          exact hturns option (List.mem_of_getElem? hoption))
        (Ready.chosen hchoice hoptions hunmoved (hfits _ (List.getElem_mem hplace))) ambient
      rw [map_fst_chosenTurns hchoice] at hrun
      refine ⟨after, ?_, .variant _ _ _ _ _ _ (fun _ => ?_) ?_, ?_⟩
      · rw [if_neg (by simpa using hnone), Walk.bind_ok hturn,
          Walk.bind_ok (Walk.pick_apply hplace _), Walk.bind_ok hrun]
        rfl
      · rw [hchoices, hmoved.same label fun hmem => hlabel (chosen_subset hchoice hmem)]
        exact hnext
      · rw [hchoices]
        exact hmoved.chosen hchoice hoptions hunmoved
      · exact (hsame.trans hmoved.same).mono
          (List.cons_subset_cons _ (chosen_subset hchoice))

theorem probability (env : Environment) {label : Label} {chance : Rat} {value : Command}
    (hvalue : Turns render value) :
    Turns (renderNode env render) (.probability label chance value none) := by
  intro hnodup i ambient w hstands
  have hlabels : (Command.probability label chance value none).labels = label :: value.labels := by
    rw [Command.labels_eq, Command.parts, List.flatMap_singleton]
    rfl
  rw [hlabels, List.nodup_cons] at hnodup
  obtain ⟨hlabel, hbelow⟩ := hnodup
  have hnode : renderNode env render (.probability label chance value none) .cyclical ambient =
      renderProbability env render label chance value .cyclical ambient := rfl
  have hpos := List.length_pos_iff.2 (probabilityChoices_ne_nil chance)
  rw [hlabels, Command.rotation_probability, hnode]
  -- the counter of the node says which outcome is due; one outcome renders
  -- the value, the other not
  cases hstands with
  | probability _ _ _ _ here below =>
    rw [renderProbability, isIncluded, if_neg (by decide)]
    generalize houtcomes : probabilityChoices (.finite chance) = outcomes at *
    have hplace := Nat.mod_lt i hpos
    have houtcome := List.getElem?_eq_getElem hplace
    obtain ⟨between, hturn, hnext, hsame⟩ := turn_apply label hpos here
    -- the turn of this node left the counters below it alone, since its label is none of theirs
    have hunmoved := below.of_sameOff hsame (List.disjoint_singleton.2 hlabel)
    have hvisits := visits_succ id houtcome
    rw [Walk.bind_assoc, Walk.bind_ok hturn, Walk.bind_ok (Walk.pick_apply hplace _), houtcome,
      Option.getD_some]
    cases hput : outcomes[i % outcomes.length] with
    | true =>
      rw [hput, id, if_pos rfl] at hvisits
      obtain ⟨after, hrun, hstood, hsame'⟩ := hvalue hbelow _ ambient between hunmoved
      refine ⟨after, hrun, .probability _ _ _ _ ?_ ?_, hsame.trans hsame'⟩
      -- the value moved only its own labels, so the node's counter is still one further
      · rw [houtcomes, hsame' label hlabel]
        exact hnext
      · rw [houtcomes, hvisits]
        exact hstood
    | false =>
      rw [hput, id, if_neg Bool.false_ne_true, Nat.add_zero] at hvisits
      refine ⟨between, rfl, .probability _ _ _ _ ?_ ?_, hsame.mono (by simp)⟩
      · rw [houtcomes]
        exact hnext
      · rw [houtcomes, hvisits]
        exact hunmoved

/-- One node: if its parts take their turns, it takes its own. -/
theorem node (env : Environment) {command : Command} (hplain : command.isPlain = true)
    (hparts : ∀ part ∈ command.parts, Turns render part) :
    Turns (renderNode env render) command := by
  cases command with
  | literal text => exact fun _ i _ w _ => ⟨w, rfl, .literal text (i + 1), .refl _ _⟩
  | comment text => exact fun _ i _ w _ => ⟨w, rfl, .comment text (i + 1), .refl _ _⟩
  | sequence children =>
    intro hnodup i ambient w hstands
    cases hstands with
    | sequence _ _ below =>
      have hlabels : (Command.sequence children).labels =
          -- all children are turned once per visit: the same number belongs to each of them
          (children.map fun child => (child, i)).flatMap (·.1.labels) := by
        rw [Command.labels_eq, List.flatMap_map]
        rfl
      rw [hlabels] at hnodup ⊢
      obtain ⟨after, hrun, hmoved⟩ := sequence (List.forall_mem_map.2 hparts)
        ⟨hnodup, List.forall_mem_map.2 below⟩ ambient
      refine ⟨after, ?_, .sequence children _ (List.forall_mem_map.1 hmoved.stands), hmoved.same⟩
      simp only [List.map_map, Function.comp_def, List.map_id', turnText] at hrun
      rw [Command.rotation_sequence]
      exact hrun
  | wrap wrapper inner =>
    intro hnodup i ambient w hstands
    cases hstands with
    | wrap _ _ _ around below =>
      -- the inner part is rendered before the wrapper; the labels are listed the other way round
      have hlabels : (Command.wrap wrapper inner).labels.Perm
          ([(inner, i), (wrapper, i)].flatMap (·.1.labels)) := by
        simpa [Command.labels_eq (.wrap wrapper inner), Command.label?, Command.parts] using
          List.perm_append_comm
      have hready : Ready w.session.counters [(inner, i), (wrapper, i)] :=
        ⟨hlabels.nodup_iff.1 hnodup,
          List.forall_mem_cons.2 ⟨below, List.forall_mem_singleton.2 around⟩⟩
      obtain ⟨between, hinner, hready', hmoved⟩ :=
        first (hparts inner (by simp [Command.parts])) hready ambient
      obtain ⟨after, hwrapper, -, hmoved'⟩ :=
        first (hparts wrapper (by simp [Command.parts])) hready' ambient
      have hboth := hmoved _ (hmoved' _ (.nil _))
      refine ⟨after, ?_, .wrap wrapper inner _ (hboth.stands (wrapper, i) (by simp))
        (hboth.stands (inner, i) (by simp)), hboth.same.mono hlabels.symm.subset⟩
      rw [renderNode, Walk.bind_ok hinner, Walk.bind_ok hwrapper, Command.rotation]
      rfl
  | variant label options least most separator sampling =>
    obtain rfl : sampling = none := Option.isNone_iff_eq_none.1 hplain
    exact variant env fun option hmem => hparts _ (List.mem_map_of_mem hmem)
  | probability label chance value sampling =>
    obtain rfl : sampling = none := Option.isNone_iff_eq_none.1 hplain
    exact probability env (hparts value (List.mem_singleton_self _))
  | _ => cases hplain

/-- A whole tree, if rendering may go as deep as it does. The induction is on its nodes. -/
theorem of_within (env : Environment) {command : Command}
    (hplain : command.Everywhere (·.isPlain = true)) {depth : Nat} (hdepth : command.Within depth) :
    Turns (renderWithin env depth) command := by
  induction hplain generalizing depth with
  | node command here _ ih =>
    cases depth with
    | zero => exact hdepth.elim
    | succ depth => exact node env here fun part hmem => ih part hmem (hdepth part hmem)

end Turns

/-! ## 4. Turn after turn -/

/-- Rendering again and again goes through the turns in order. The induction is on how often,
and each rendering leaves the counters where the next one takes them up. -/
theorem renderRepeatedly_turns {env : Environment} {command : Command}
    (hturns : Turns (renderOnce env) command) (hnodup : command.labels.Nodup) (count : Nat)
    {i : Nat} {s : Session} (hstands : Stands s.counters command i) :
    ∃ after, renderRepeatedly env command .cyclical count s =
        (.ok ((List.range' i count).map command.rotation), after) := by
  induction count generalizing i s with
  | zero => exact ⟨s, rfl⟩
  | succ count ih =>
    obtain ⟨w, hrun, hstood, -⟩ := hturns hnodup i [] ⟨.root [], s⟩ hstands
    obtain ⟨after, hrest⟩ := ih hstood
    refine ⟨after, ?_⟩
    rw [renderRepeatedly, hrun, List.range'_succ]
    simp only [hrest, List.map_cons]

/-- **Rotation has a closed form.** Take a tree that is read from a template, without
wildcards, conditions, variables and methods of its nodes' own. From counters that have not
moved, generating in rotation gives the texts of the first turns, as many as are asked for,
whatever else the session holds, and the sequence of all turns is periodic from its
beginning on. The depth limit has to let the tree be rendered at all. -/
theorem generate_rotation {declaration given : GrammarDeclaration} {g own : Grammar}
    (h : Grammar.load declaration = .ok g) {origin : Origin} {source : Text} {tree : Command}
    (hparse : g.parse origin source = .ok tree) (hplain : tree.Everywhere (·.isPlain = true))
    (hgiven : Grammar.load given = .ok own) (env : Environment)
    (hdepth : tree.Within env.depthLimit) {s : Session} (hfresh : s.counters = .empty)
    (count : Nat) :
    (generate given env (.tree tree) (units "cyclical") (.ofNat count) s).1 =
        .ok ((List.range count).map tree.rotation) ∧
      ∃ period, 0 < period ∧ Function.Periodic tree.rotation period := by
  refine ⟨?_, tree.exists_period⟩
  -- every block has a label of its own, also where two blocks read the same
  have hplaced := Template.parse_placed (Grammar.opens_of_load h) origin source
  rw [hparse] at hplaced
  have hstands : Stands s.counters tree 0 := hfresh ▸ .start hplain
  have hturns : Turns (renderOnce { env with grammar := own }) tree := .of_within _ hplain hdepth
  obtain ⟨after, hrun⟩ := renderRepeatedly_turns hturns hplaced.nodup count hstands
  have hmethod : Sampling.ofName? (units "cyclical") = some .cyclical := by decide
  have hprompts : (tree.prompts { env with grammar := own } .cyclical count s).1 =
      .ok ((List.range count).map tree.rotation) := by
    rw [Command.prompts, List.range_eq_range']
    cases count with
    | zero => rfl
    | succ count => simp only [Nat.succ_ne_zero, if_false, reduceCtorEq, hrun]
  rw [generate, Number.toNat?_ofNat, hmethod, hgiven]
  simp only [Subject.read, hprompts]
  rfl

/-- Two blocks that read the same, each with a part in it, and a choice of two of three. -/
def repeatedSource : Text :=
  units "\x7ba|b\x7b.5::c\x7d\x7d-\x7ba|b\x7b.5::c\x7d\x7d \x7b2$$x|y|z\x7d"

/-- An environment without wildcards. -/
def plainEnvironment : Environment where
  grammar := .standard
  source := fun _ => 0
  round := .exact
  policy := .automatic
  resolve := fun _ => .ok []
  depthLimit := 5

theorem generate_rotation_of_repeated :
    ∃ tree, Grammar.standard.parse (.built 0) repeatedSource = .ok tree ∧
      tree.Everywhere (·.isPlain = true) ∧ tree.Within plainEnvironment.depthLimit ∧
      (List.range 5).map tree.rotation =
        [units "a-a x,y", units "b-b x,z", units "a-a y,z", units "bc-bc x,y", units "a-a x,z"] ∧
      (generate .absent plainEnvironment (.tree tree) (units "cyclical") (.ofNat 5) (.fresh 0)).1 =
        .ok ((List.range 5).map tree.rotation) ∧
      ∃ period, 0 < period ∧ Function.Periodic tree.rotation period := by
  have hread : ((Grammar.standard.parse (.built 0) repeatedSource).toOption.any fun tree =>
      decide (tree.Everywhere (·.isPlain = true) ∧ tree.Within plainEnvironment.depthLimit ∧
        (List.range 5).map tree.rotation = [units "a-a x,y", units "b-b x,z", units "a-a y,z",
          units "bc-bc x,y", units "a-a x,z"])) = true := by decide +kernel
  obtain ⟨tree, htree, hholds⟩ := (Option.any_eq_true _ _).1 hread
  -- the tree is too large to write out: it is named as what the reader answers
  cases hparse : Grammar.standard.parse (.built 0) repeatedSource with
  | error error =>
    rw [hparse] at htree
    cases htree
  | ok read =>
    rw [hparse] at htree
    cases htree
    obtain ⟨hplain, hdepth, htexts⟩ := of_decide_eq_true hholds
    have hload : Grammar.load .absent = .ok .standard := rfl
    exact ⟨tree, rfl, hplain, hdepth, htexts,
      generate_rotation hload hparse hplain hload plainEnvironment hdepth rfl 5⟩

end PromptTemplate
