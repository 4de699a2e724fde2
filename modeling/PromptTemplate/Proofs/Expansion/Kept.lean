/-
`Kept.lean` -- what rendering needs of a session.

A likeness of sessions is kept by whole trees as soon as it is kept by the few actions that look
at a session at all: draws, turns and the candidates of wildcards (`Likeness.Kept`). Which of them
occur is bounded by the nodes in reach and the manners in which they are (`Reach`). Walks come
first, for each method, and then the branches of an enumeration, because a node that is forced to
draw or to rotate is rendered by a walk.
-/
import PromptTemplate.Proofs.Expansion.Likeness

set_option autoImplicit false

namespace PromptTemplate

namespace Likeness

/-! ## 1. What has to be kept -/

/-- The likeness is kept by everything in rendering that looks at a session, as long as all nodes
are in reach, each in its manner, and wildcards get candidates as they may be offered under their
names. -/
structure Kept (k : Likeness) (env : Environment) (r : Reach)
    (offered : WildcardName Command → List Command → Prop) : Prop where
  unknown : ∀ name, k.allowed (.unknownVariable name)
  tooDeep : k.allowed .tooDeep
  /-- Where a node that does not draw stands is the same, and it moves on alike. -/
  turn : ∀ {method command label}, r.visits (.walked method) command →
    command.declared.getD method ≠ .random → command.label? = some label →
    ∀ {size : Nat}, 0 < size → ∀ s t, k.alike s t →
      s.counters.position label = t.counters.position label ∧
        k.alike { s with counters := (s.counters.next label size).2 }
          { t with counters := (t.counters.next label size).2 }
  /-- Draws are taken alike. -/
  draw : ∀ {method command}, r.visits (.walked method) command →
    command.declared.getD method = .random → ∀ s t, k.alike s t →
      s.drawn = t.drawn ∧ ∀ drawn, k.alike { s with drawn := drawn } { t with drawn := drawn }
  /-- A draw takes one of the options, unless it may miss them. -/
  option : ∀ {method label options least most separator sampling},
    r.visits (.walked method) (.variant label options least most separator sampling) →
    sampling.getD method = .random →
    eligible (options.map (·.weight)) ≠ [] → k.allowed .drawOutOfRange ∨ ∀ drawn, ∃ index,
      (weightedIndex env.round env.source drawn ((options.map (·.weight)).map .finite)).1 =
        some index ∧ index < options.length
  /-- A draw takes one of the candidates, unless it may miss them. -/
  candidate : ∀ {name members}, offered name members → members ≠ [] →
    k.allowed .drawOutOfRange ∨ ∀ drawn, ∃ place,
      (Number.mul env.round (env.source drawn) (.ofNat members.length)).floor.toNat? = some place ∧
        place < members.length
  /-- Asking for a wildcard by its own method answers alike. -/
  asking : ∀ {manner label name inlined sampling},
    r.visits manner (.wildcard label name inlined sampling) → ∀ {text}, name.Spells text →
      k.Answers (offered name)
        (Session.wildcardCandidates env text (sampling.getD manner.method))
  /-- What is offered may be rendered as the wildcard passes it on. -/
  passed : ∀ {manner label name inlined sampling},
    r.visits manner (.wildcard label name inlined sampling) → ∀ {members}, offered name members →
      ∀ candidate ∈ members, r.visits (manner.passed sampling) candidate

namespace Kept

variable {k : Likeness} {env : Environment} {r : Reach}
  {offered : WildcardName Command → List Command → Prop} (h : k.Kept env r offered)
include h

/-! ## 2. Actions -/

section Actions

variable {method : Sampling} {command : Command} (hvisited : r.visits (.walked method) command)
  {label : Label} (hlabel : command.label? = some label)
include hvisited

theorem takes_drawInt (hrandom : command.declared.getD method = .random) (least most : Nat) :
    k.Takes (fun _ => True) (Walk.drawInt env least most) := by
  refine .of_session
    (fun s => (randomInt env.round env.source s.drawn (.ofNat least) (.ofNat most)).1)
    (fun s => { s with
      drawn := (randomInt env.round env.source s.drawn (.ofNat least) (.ofNat most)).2 })
    fun s t halike => ?_
  obtain ⟨hdrawn, hafter⟩ := h.draw hvisited hrandom s t halike
  rw [hdrawn]
  exact ⟨trivial, rfl, hafter _⟩

theorem takes_draw (hrandom : command.declared.getD method = .random) :
    k.Takes (fun drawn => ∃ n, drawn = env.source n) (Walk.draw env) := by
  refine .of_session (fun s => env.source s.drawn)
    (fun s => { s with drawn := s.drawn + 1 }) fun s t halike => ?_
  obtain ⟨hdrawn, hafter⟩ := h.draw hvisited hrandom s t halike
  rw [hdrawn]
  exact ⟨⟨_, rfl⟩, rfl, hafter _⟩

include hlabel

/-- A node that does not draw takes the member whose turn it is. -/
theorem takes_turn (hrandom : command.declared.getD method ≠ .random) {α : Type} {members : List α}
    (hmembers : members ≠ []) :
    k.Takes (· ∈ members) (Walk.turn label members.length >>= fun place =>
      Walk.pick members (some place)) :=
  .turn hmembers (h.turn hvisited hrandom hlabel (List.length_pos_iff.2 hmembers))

/-- A part that is not always put in is put in, or not, by the same draws and turns. -/
theorem takes_included (chance : Rat) :
    k.Takes (fun _ =>
      True) (isIncluded env label chance (command.declared.getD method).walked) := by
  unfold isIncluded
  split
  · next hrandom =>
    exact (h.takes_draw hvisited (Sampling.walked_eq_random.1 hrandom)).bind fun drawn _ =>
      .pure trivial
  · next hrandom =>
    exact (h.takes_turn hvisited hlabel (mt Sampling.walked_eq_random.2 hrandom)
      (probabilityChoices_ne_nil chance)).mono fun _ _ => trivial

/-- One of the candidates that are offered. -/
theorem takes_candidate {name : WildcardName Command} {members : List Command}
    (hoffered : offered name members) (hmembers : members ≠ []) :
    k.Takes (· ∈ members)
      (candidateIndex env label (command.declared.getD method).walked members.length >>=
        Walk.pick members) := by
  unfold candidateIndex
  split
  · next hrandom =>
    rw [Walk.bind_assoc]
    refine (h.takes_draw hvisited (Sampling.walked_eq_random.1 hrandom)).bind fun drawn hdrawn => ?_
    obtain ⟨n, rfl⟩ := hdrawn
    exact .pick ((h.candidate hoffered hmembers).imp_right fun hplace => hplace n)
  · next hrandom =>
    rw [Walk.bind_assoc]
    exact h.takes_turn hvisited hlabel (mt Sampling.walked_eq_random.2 hrandom) hmembers

end Actions

/-- One of the options of a variant that draws. -/
theorem takes_option {method : Sampling} {label : Label} {options : List (Weighted Command)}
    {least most : Nat} {separator : Text} {sampling : Option Sampling}
    (hvisited : r.visits (.walked method) (.variant label options least most separator sampling))
    (hrandom : sampling.getD method = .random)
    (heligible : eligible (options.map (·.weight)) ≠ []) :
    k.Takes (· ∈ options)
      (Walk.drawWeighted env (options.map (·.weight)) >>= Walk.pick options) := by
  -- the draw depends on how many draws there were, which alike sessions have in common
  have hdrawn : k.Takes
      (fun index =>
        k.allowed .drawOutOfRange ∨ ∃ place, index = some place ∧ place < options.length)
      (Walk.drawWeighted env (options.map (·.weight))) := by
    refine .of_session
      (fun s =>
        (weightedIndex env.round env.source s.drawn ((options.map (·.weight)).map .finite)).1)
      (fun s => { s with
        drawn :=
          (weightedIndex env.round env.source s.drawn ((options.map (·.weight)).map .finite)).2 })
      fun s t halike => ?_
    obtain ⟨hdrawn, hafter⟩ := h.draw hvisited hrandom s t halike
    rw [hdrawn]
    exact ⟨(h.option hvisited hrandom heligible).imp_right fun hindex => hindex _, rfl, hafter _⟩
  exact hdrawn.bind fun index hindex => .pick hindex

/-! ## 3. Walks -/

section Walks

variable {enumerate : Enumerator} {render : Renderer}
  (hsound : ∀ method,
    (k.walking h.unknown).Sound (.reaching r (.walked method)) enumerate (fun _ => render) method)
  {method : Sampling} {scope : Scope} {ambient : Text}
include hsound

/-- One node in a scope in which it may be rendered. -/
theorem walks_part {command : Command} (hvisited : r.visits (.walked method) command)
    (hscope : scope.Keeps r.keeps) :
    k.Walks (fun _ after => after.Keeps r.keeps) scope (render command method ambient) :=
  hsound method command scope ambient ⟨List.forall_mem_singleton.2 hvisited, hscope⟩

/-- Options drawn one after another. -/
theorem walks_renderDrawn {label : Label} {options : List (Weighted Command)} {least most : Nat}
    {separator : Text} {sampling : Option Sampling}
    (hvisited : r.visits (.walked method) (.variant label options least most separator sampling))
    (hrandom : sampling.getD method = .random) (heligible : eligible (options.map (·.weight)) ≠ [])
    (hscope : scope.Keeps r.keeps) (count : Nat) :
    k.Walks (fun _ after => after.Keeps r.keeps) scope
      (renderDrawn env render options ambient count) := by
  induction count generalizing scope with
  | zero => exact .pure hscope
  | succ count ih =>
    refine .choose (h.takes_option hvisited hrandom heligible) fun option hmem => ?_
    have hoption : r.visits (.walked .random) option.value := by
      have hpassed : (Manner.walked method).passed sampling = .walked .random := by
        rw [Manner.passed_walked, hrandom]
        rfl
      exact hpassed ▸ r.chosen hvisited (List.mem_map_of_mem hmem)
    refine (h.walks_part hsound hoption hscope).bind fun first after hafter => ?_
    exact (ih hafter).bind fun rest last hlast => .pure hlast

/-- A variant: options drawn, or the choice whose turn it is. -/
theorem walks_renderVariant {label : Label} {options : List (Weighted Command)} {least most : Nat}
    {separator : Text} {sampling : Option Sampling}
    (hvisited : r.visits (.walked method) (.variant label options least most separator sampling))
    (hscope : scope.Keeps r.keeps) :
    k.Walks (fun _ after => after.Keeps r.keeps) scope
      (renderVariant env render label options least most separator (sampling.getD method).walked
        ambient) := by
  unfold renderVariant
  dsimp only
  -- a draw is made only where the node's own method is to draw; the others take turns
  split
  · next hrandom =>
    have hdraws := Sampling.walked_eq_random.1 hrandom
    split
    · exact .pure hscope
    · next heligible =>
      refine .take (h.takes_drawInt hvisited hdraws least most) fun count _ => ?_
      exact (h.walks_renderDrawn hsound hvisited hdraws (by simpa using heligible) hscope _).bind
        fun parts after hafter => .pure hafter
  · next hrandom =>
    split
    · exact .pure hscope
    · next hchoices =>
      refine .choose (h.takes_turn hvisited rfl (mt Sampling.walked_eq_random.2 hrandom)
        (by simpa using hchoices)) fun choice hmem => ?_
      refine (hsound _).joined (k := .reaching r _)
        ⟨fun value hvalue => ?_, hscope⟩ separator ambient []
      exact r.chosen hvisited ((optionsAt_sublist hmem).subset hvalue)

/-- A wildcard: its name, its candidates, and one of these in a frame of its own. -/
theorem walks_renderWildcard {label : Label} {name : WildcardName Command}
    {inlined : List (Text × Command)} {sampling : Option Sampling}
    (hvisited : r.visits (.walked method) (.wildcard label name inlined sampling))
    (hscope : scope.Keeps r.keeps) :
    k.Walks (fun _ after => after.Keeps r.keeps) scope
      (renderWildcard env render label name inlined sampling method ambient) := by
  -- a fixed name is spelled as it is written, while a rendered one may come to any text
  have hname : k.Walks (fun text after => name.Spells text ∧ after.Keeps r.keeps) scope
      (renderName render method ambient name) := by
    cases name with
    | fixed name => exact .pure ⟨fun own hown => WildcardName.fixed.inj hown, hscope⟩
    | rendered command =>
      exact (h.walks_part hsound (r.named hvisited) hscope).mono fun text after hafter =>
        ⟨nofun, hafter⟩
  refine hname.bind fun text after hafter => ?_
  obtain ⟨hspells, hafter⟩ := hafter
  refine .take (.of_answers (h.asking hvisited hspells)) fun found hfound => ?_
  split
  · exact .pure hafter
  · next hempty =>
    have hinside : (after.push (inlineFrame after inlined)).Keeps r.keeps :=
      hafter.inlining (r.inlined hvisited)
    refine .choose (h.takes_candidate hvisited rfl hfound (by simpa using hempty))
      fun candidate hmem => ?_
    exact Walks.within (h.walks_part hsound (h.passed hvisited hfound candidate hmem) hinside)
      fun _ _ _ => hafter

/-- A part that is not always put in. -/
theorem walks_renderProbability {label : Label} {chance : Rat} {value : Command}
    {sampling : Option Sampling}
    (hvisited : r.visits (.walked method) (.probability label chance value sampling))
    (hscope : scope.Keeps r.keeps) :
    k.Walks (fun _ after => after.Keeps r.keeps) scope
      (renderProbability env render label chance value (sampling.getD method).walked ambient) := by
  refine .take (h.takes_included hvisited rfl chance) fun included _ => ?_
  cases included with
  | true =>
    exact h.walks_part hsound (r.chosen hvisited (List.mem_singleton_self _)) hscope
  | false => exact .pure hscope

end Walks

/-- Walks keep the likeness, by every method and at whatever depth. -/
theorem walks_within (depth : Nat) (method : Sampling) :
    (k.walking h.unknown).Sound (.reaching r (.walked method)) (enumerateWithin env .distinct depth)
      (fun _ => renderWithin env depth) method := by
  induction depth generalizing method with
  | zero => exact fun command scope ambient _ => .fail h.tooDeep
  | succ depth ih =>
    intro command scope ambient hadmits
    have hvisited := hadmits.1 command (List.mem_singleton_self _)
    refine (ih method).node (Contract.reaching_enters hadmits) ambient fun hchooses => ?_
    cases command with
    | variant => exact h.walks_renderVariant ih hvisited hadmits.2
    | wildcard => exact h.walks_renderWildcard ih hvisited hadmits.2
    | probability => exact h.walks_renderProbability ih hvisited hadmits.2
    | _ => exact absurd rfl hchooses

/-! ## 4. Branches -/

/-- The branches of a node by its own method: all of them, or the one of a walk. -/
theorem yields_byMethod {command : Command} (hvisited : r.visits .enumerated command)
    {scope : Scope} (hscope : scope.Keeps r.keeps) {ambient : Text} {all : Branches}
    (hall : Manner.enumerated.under command.declared = .enumerated →
      k.Yields (·.Keeps r.keeps) all) :
    k.Yields (·.Keeps r.keeps)
      (byMethod (renderOnce env) command command.declared scope ambient all) := by
  have hwalk : ∀ {method}, Manner.enumerated.under command.declared = .walked method →
      k.Yields (·.Keeps r.keeps)
        (walkBranch (renderOnce env) command method scope ambient) := fun hforced =>
    .walkBranch (h.walks_within env.depthLimit _ command scope ambient
      ⟨List.forall_mem_singleton.2 (hforced ▸ r.forced hvisited), hscope⟩)
  revert hall hwalk
  cases command.declared with
  | none => exact fun hall _ => hall rfl
  | some method =>
    cases method with
    | combinatorial => exact fun hall _ => hall rfl
    | random | cyclical => exact fun _ hwalk => hwalk rfl

/-- A wildcard that is enumerated: its names, each of them once, and all candidates of each. -/
theorem yields_wildcard {enumerate : Enumerator} {ambient : Text}
    (hpart : ∀ {part : Command} {scope : Scope}, r.visits .enumerated part → scope.Keeps r.keeps →
      k.Yields (·.Keeps r.keeps) (enumerate part scope ambient))
    {label : Label} {name : WildcardName Command} {inlined : List (Text × Command)}
    {sampling : Option Sampling}
    (hvisited : r.visits .enumerated (.wildcard label name inlined sampling))
    (hall : Manner.enumerated.under sampling = .enumerated) {scope : Scope}
    (hscope : scope.Keeps r.keeps) :
    k.Yields (·.Keeps r.keeps) ((nameBranches enumerate scope ambient name).distinct.bind
      (candidateBranches env enumerate inlined ambient)) := by
  -- branches of a wildcard are all enumerated only if no other method stands at the node
  have hexhausts : sampling.getD Manner.enumerated.method = .combinatorial := by
    rcases sampling with _ | (_ | _ | _) <;> first | rfl | cases hall
  have hcandidates : ∀ {text : Text} {after : Scope}, name.Spells text → after.Keeps r.keeps →
      k.Yields (·.Keeps r.keeps)
        (candidateBranches env enumerate inlined ambient ⟨text, after⟩) := by
    -- the lookup is made once, before the branches, and each candidate is read from its answer
    intro text after hspells hafter
    rw [Comparison.Choosing.candidateBranches_eq]
    have hasking := h.asking hvisited hspells
    rw [hexhausts] at hasking
    refine .ofSession hasking fun found hoffered => ?_
    split
    · exact .single hafter
    · refine .forEach fun candidate hmem => .map (hpart ?_ ?_) fun _ _ => hafter
      · exact Manner.passed_of_under hall ▸ h.passed hvisited hoffered candidate hmem
      · exact hafter.inlining (r.inlined hvisited)
  cases name with
  | fixed name => exact .one (hcandidates (fun own hown => WildcardName.fixed.inj hown) hscope)
  | rendered command =>
    have hname : r.visits .enumerated command := hall ▸ r.named hvisited
    exact (hpart hname hscope).distinct.bind fun branch hbranch => hcandidates nofun hbranch

/-- Enumerating keeps the likeness, at whatever depth. -/
theorem yields_within (depth : Nat) :
    (k.branching h.unknown).Sound (.reaching r .enumerated) (enumerateWithin env .distinct depth)
      (fun _ => renderWithin env depth) .combinatorial := by
  induction depth with
  | zero => exact fun command scope ambient _ => .fail h.tooDeep
  | succ depth ih =>
    intro command scope ambient hadmits
    have hvisited := hadmits.1 command (List.mem_singleton_self _)
    -- below this node everything is reached that the node passes on, by enumeration as it is
    have hpart : ∀ {part : Command} {scope : Scope}, r.visits .enumerated part →
        scope.Keeps r.keeps →
        k.Yields (·.Keeps r.keeps) (enumerateWithin env .distinct depth part scope ambient) :=
      fun hpart hscope => ih _ _ _ ⟨List.forall_mem_singleton.2 hpart, hscope⟩
    have hchosen : Manner.enumerated.under command.declared = .enumerated →
        ∀ {part : Command}, part ∈ command.choices → r.visits .enumerated part :=
      fun hall {_} hmem => Manner.passed_of_under hall ▸ r.chosen hvisited hmem
    refine ih.node (Contract.reaching_enters hadmits) ambient fun hchooses => ?_
    cases command with
    | variant label options least most separator sampling =>
      refine h.yields_byMethod hvisited hadmits.2 fun hall => ?_
      unfold variantBranches
      split
      · exact .single hadmits.2
      · refine .forEach fun choice hmem => ?_
        refine ih.joined (k := .reaching r .enumerated) ⟨fun value hvalue => ?_, hadmits.2⟩ _ _ []
        exact hchosen hall ((optionsAt_sublist hmem).subset hvalue)
    | wildcard label name inlined sampling =>
      exact h.yields_byMethod hvisited hadmits.2 fun hall =>
        h.yields_wildcard hpart hvisited hall hadmits.2
    | probability label chance value sampling =>
      refine h.yields_byMethod hvisited hadmits.2 fun hall => .forEach fun included _ => ?_
      cases included with
      | true => exact hpart (hchosen hall (List.mem_singleton_self _)) hadmits.2
      | false => exact .single hadmits.2
    | _ => exact absurd rfl hchooses

end Kept

end Likeness

end PromptTemplate
