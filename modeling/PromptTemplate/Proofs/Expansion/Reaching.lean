/-
`Reaching.lean` -- branches that walks can reach.

Walks reach branches from a scope if, whenever the branches come to an end without an error,
there are draws for each of them that lead a walk to it: the walk takes these draws and no
more, and ends with the text of the branch and with a scope that answers as the branch's
does. Where in a source the draws stand does not matter, so the draws for one node can be
followed by those for the next. Together with `Follows`, which says that a walk ends at no
other place, this is what makes the branches the outcomes of drawing.
-/
import PromptTemplate.Proofs.Expansion.Draws
import PromptTemplate.Proofs.Expansion.Rules

set_option autoImplicit false

namespace PromptTemplate

/-! ## 1. Draws to come -/

namespace Source

variable {source : Source} {drawn : Nat} {draws : List Rat}

/-- These are the next draws of the source, from one on. -/
def Begins (source : Source) : (drawn : Nat) → List Rat → Prop
  | _, [] => True
  | drawn, draw :: draws => source drawn = .finite draw ∧ Begins source (drawn + 1) draws

theorem begins_append {first next : List Rat} :
    source.Begins drawn (first ++ next) ↔
      source.Begins drawn first ∧ source.Begins (drawn + first.length) next := by
  induction first generalizing drawn with
  | nil => simp only [List.nil_append, Begins, true_and, List.length_nil, Nat.add_zero]
  | cons draw first ih =>
    simp only [List.cons_append, Begins, ih, and_assoc, List.length_cons, Nat.add_right_comm,
      Nat.add_assoc]

theorem begins_of_getElem (h : ∀ i (hi : i < draws.length), source (drawn + i) = .finite draws[i]) :
    source.Begins drawn draws := by
  induction draws generalizing drawn with
  | nil => trivial
  | cons draw draws ih =>
    refine ⟨h 0 (Nat.succ_pos _), ih fun i hi => ?_⟩
    rw [Nat.add_right_comm]
    exact h (i + 1) (Nat.succ_lt_succ hi)

/-- Any draws between zero and one can come next. -/
theorem exists_begins (hdraws : ∀ draw ∈ draws, 0 ≤ draw ∧ draw < 1) (drawn : Nat) :
    ∃ source : Source, source.InUnit ∧ source.Begins drawn draws := by
  refine ⟨fun draw => .finite (draws.getD (draw - drawn) 0), fun draw => ⟨_, rfl, ?_⟩,
    begins_of_getElem fun i hi => ?_⟩
  · rw [List.getD_eq_getElem?_getD]
    cases hfound : draws[draw - drawn]? with
    | none => exact ⟨le_refl _, zero_lt_one⟩
    | some value => exact hdraws value (List.mem_of_getElem? hfound)
  · rw [Nat.add_sub_cancel_left, List.getD_eq_getElem?_getD, List.getElem?_eq_getElem hi]
    rfl

end Source

/-! ## 2. The relation -/

/-- From all states that agree with the scope a walk arrives at the branch when these draws
come next, and it takes no others. -/
def Walk.ArrivesBy (known : Session → Prop) (walk : Source → Walk Text) (scope : Scope)
    (branch : Branch) (draws : List Rat) : Prop :=
  ∀ (source : Source) (w : Walking), w.scope.Agrees scope → known w.session →
    source.Begins w.session.drawn draws →
    (walk source).Arrives
      (fun after => known after ∧ after.drawn = w.session.drawn + draws.length) w branch

/-- The branches are this listing, whatever the session; every scope that one of them leaves
is settled; and if no error ends them, each of them is arrived at by some draws. -/
structure ReachesBy (known : Session → Prop) (settled : Scope → Prop) (scope : Scope)
    (branches : Branches) (walk : Source → Walk Text) (listing : Listing) : Prop where
  denotes : branches.Denotes known listing
  settles : ∀ branch ∈ listing.branches, settled branch.scope
  arrives : listing.error = none → ∀ branch ∈ listing.branches, ∃ draws : List Rat,
    (∀ draw ∈ draws, 0 ≤ draw ∧ draw < 1) ∧ Walk.ArrivesBy known walk scope branch draws

/-- The walks reach the branches from the scope. -/
def Reaches (known : Session → Prop) (settled : Scope → Prop) (scope : Scope)
    (branches : Branches) (walk : Source → Walk Text) : Prop :=
  ∃ listing, ReachesBy known settled scope branches walk listing

namespace Reaches

variable {known : Session → Prop} {settled between : Scope → Prop} {scope : Scope}
  {branches : Branches} {walk : Source → Walk Text}

theorem mono (h : Reaches known between scope branches walk)
    (hsettled : ∀ after, between after → settled after) :
    Reaches known settled scope branches walk := by
  obtain ⟨listing, hdenotes, hbetween, harrives⟩ := h
  exact ⟨listing, hdenotes, fun branch hmem => hsettled _ (hbetween branch hmem), harrives⟩

/-- Only what the walks do from states that agree with the scope counts. -/
theorem congr {other : Source → Walk Text} (h : Reaches known settled scope branches walk)
    (hsame : ∀ (source : Source) (w : Walking), w.scope.Agrees scope →
      other source w = walk source w) :
    Reaches known settled scope branches other := by
  obtain ⟨listing, hdenotes, hsettled, harrives⟩ := h
  refine ⟨listing, hdenotes, hsettled, fun hnone branch hmem => ?_⟩
  obtain ⟨draws, hdraws, harrive⟩ := harrives hnone branch hmem
  refine ⟨draws, hdraws, fun source w hw hs hbegins => ?_⟩
  rw [Walk.Arrives, hsame source w hw]
  exact harrive source w hw hs hbegins

/-- Branches that are an error are reached by every walk. -/
theorem fail (error : WalkError) (walk : Source → Walk Text) :
    Reaches known settled scope (.fail error) walk :=
  ⟨⟨[], some error⟩, .fail error, (fun _ hmem => by cases hmem), fun h => by cases h⟩

/-- One branch is reached by walks that always end there without a draw. -/
theorem single {branch : Branch} (hsettled : settled branch.scope)
    (harrives : Walk.ArrivesBy known walk scope branch []) :
    Reaches known settled scope (.single branch) walk := by
  refine ⟨⟨[branch], none⟩, .single branch, fun found hmem => ?_, fun _ found hmem => ?_⟩
  · rw [List.mem_singleton.1 hmem]
    exact hsettled
  · rw [List.mem_singleton.1 hmem]
    exact ⟨[], (fun _ hdraw => by cases hdraw), harrives⟩

/-- The draws for a first walk, then those for the one that goes on from its branch. -/
theorem bind (h : Reaches known between scope branches walk) {f : Branch → Branches}
    {next : Source → Text → Walk Text}
    (hnext : ∀ branch, between branch.scope →
      Reaches known settled branch.scope (f branch) fun source => next source branch.text) :
    Reaches known settled scope (branches.bind f) fun source => walk source >>= next source := by
  obtain ⟨listing, hlisting⟩ := h
  obtain ⟨part, hpart⟩ := Listing.exists_parts fun branch hmem =>
    hnext branch (hlisting.settles branch hmem)
  refine ⟨listing.bind part, hlisting.denotes.bind fun branch hmem => (hpart branch hmem).denotes,
    fun found hfound => ?_, fun hnone found hfound => ?_⟩
  · obtain ⟨branch, hmem, hin⟩ := Listing.mem_bindAll hfound
    exact (hpart branch hmem).settles found hin
  · obtain ⟨branch, hmem, hin⟩ := Listing.mem_bindAll hfound
    obtain ⟨herror, hkept⟩ := Listing.bindAll_error_none hnone
    obtain ⟨first, hfirst, harrive⟩ := hlisting.arrives herror branch hmem
    obtain ⟨rest, hrest, harrive'⟩ := (hpart branch hmem).arrives (hkept branch hmem).1 found hin
    refine ⟨first ++
      rest, fun draw hdraw => (List.mem_append.1 hdraw).elim (hfirst draw) (hrest draw),
      fun source w hw hs hbegins => ?_⟩
    obtain ⟨hbegins, hbegins'⟩ := Source.begins_append.1 hbegins
    obtain ⟨after, hrun, hagrees, hparents, hknown, hdrawn⟩ := harrive source w hw hs hbegins
    -- the first walk took its draws, so the rest of them come next
    obtain ⟨last, hrun', hagrees', hparents', hknown', hdrawn'⟩ :=
      harrive' source after hagrees hknown (hdrawn ▸ hbegins')
    refine ⟨last, (Walk.bind_ok hrun).trans hrun', hagrees', hparents'.trans hparents, hknown', ?_⟩
    rw [hdrawn', hdrawn, List.length_append, Nat.add_assoc]

/-- Walks that take one of several members reach the branches of all members that they can
take. -/
theorem choose {α : Type} {members : List α} {f : α → Branches} {selection : Source → Walk α}
    {next : Source → α → Walk Text}
    (hselection : ∀ a ∈ members, ∃ draws : List Rat, (∀ draw ∈ draws, 0 ≤ draw ∧ draw < 1) ∧
      ∀ (source : Source) (w : Walking), known w.session → source.Begins w.session.drawn draws →
        ∃ after, selection source w = (.ok a, after) ∧ after.scope = w.scope ∧
          known after.session ∧ after.session.drawn = w.session.drawn + draws.length)
    (hnext : ∀ a ∈ members, Reaches known settled scope (f a) fun source => next source a) :
    Reaches known settled scope (Branches.forEach f members) fun source =>
      selection source >>= next source := by
  obtain ⟨part, hpart⟩ := Listing.exists_parts hnext
  refine ⟨Listing.forEach part members, .forEach fun a hmem => (hpart a hmem).denotes,
    fun found hfound => ?_, fun hnone found hfound => ?_⟩
  · obtain ⟨a, hmem, hin⟩ := Listing.mem_forEach hfound
    exact (hpart a hmem).settles found hin
  · obtain ⟨a, hmem, hin⟩ := Listing.mem_forEach hfound
    obtain ⟨first, hfirst, hselect⟩ := hselection a hmem
    obtain ⟨rest, hrest, harrive⟩ :=
      (hpart a hmem).arrives (Listing.forEach_error_none hnone a hmem).1 found hin
    -- first the draws that choose the member, then those that its own walk needs
    refine ⟨first ++
      rest, fun draw hdraw => (List.mem_append.1 hdraw).elim (hfirst draw) (hrest draw),
      fun source w hw hs hbegins => ?_⟩
    obtain ⟨hbegins, hbegins'⟩ := Source.begins_append.1 hbegins
    obtain ⟨after, hrun, hscope, hknown, hdrawn⟩ := hselect source w hs hbegins
    obtain ⟨last, hrun', hagrees', hparents', hknown', hdrawn'⟩ :=
      harrive source after (hscope ▸ hw) hknown (hdrawn ▸ hbegins')
    refine ⟨last, (Walk.bind_ok hrun).trans hrun', hagrees',
      hparents'.trans (congrArg Scope.parents hscope), hknown', ?_⟩
    rw [hdrawn', hdrawn, List.length_append, Nat.add_assoc]

/-- A branch that is left out need not be reached. -/
theorem distinct (h : Reaches known settled scope branches walk) :
    Reaches known settled scope branches.distinct walk := by
  obtain ⟨listing, hdenotes, hsettled, harrives⟩ := h
  exact ⟨_, hdenotes.distinct,
    fun branch hmem => hsettled branch (Listing.mem_of_mem_distinctFrom hmem),
    fun hnone branch hmem => harrives hnone branch (Listing.mem_of_mem_distinctFrom hmem)⟩

/-- Walks in a scope inside the present one reach the branches that are rendered there and
come back with the present scope. -/
theorem within {frame : Frame} (h : Reaches known between (scope.push frame) branches walk)
    (hsettled : settled scope) :
    Reaches known settled scope (branches.map fun branch => ⟨branch.text, scope⟩) fun source =>
      Walk.within frame (walk source) := by
  obtain ⟨listing, hdenotes, -, harrives⟩ := h
  rw [← Branches.bind_single fun branch : Branch => (⟨branch.text, scope⟩ : Branch)]
  refine ⟨_, hdenotes.bind fun branch _ => .single _, fun found hfound => ?_,
    fun hnone found hfound => ?_⟩
  · obtain ⟨branch, -, hin⟩ := Listing.mem_bindAll hfound
    rw [List.mem_singleton.1 hin]
    exact hsettled
  · obtain ⟨branch, hmem, hin⟩ := Listing.mem_bindAll hfound
    obtain ⟨herror, -⟩ := Listing.bindAll_error_none hnone
    rw [List.mem_singleton.1 hin]
    obtain ⟨draws, hdraws, harrive⟩ := harrives herror branch hmem
    refine ⟨draws, hdraws, fun source w hw hs hbegins => ?_⟩
    obtain ⟨after, hrun, -, hparents, hknown⟩ :=
      harrive source { w with scope := w.scope.push frame } (hw.push frame) hs hbegins
    -- the frames below are as they were, so leaving the scope gives back the outer one
    have hpop : after.scope.pop = w.scope := Scope.pop_of_parents_push hparents
    refine ⟨{ after with scope := after.scope.pop }, ?_, ?_, ?_, hknown⟩
    · show Walk.within frame (walk source) w = _
      rw [Walk.within, hrun]
    · rw [hpop]
      exact hw
    · rw [hpop]

/-- Both sides go through an action of the session whose result the session does not decide,
and for which nothing is drawn. -/
theorem ofSession {α : Type} {mine : Session → Except WalkError α × Session}
    {yours : Source → Session → Except WalkError α × Session} {result : Except WalkError α}
    (hmine : ∀ s, known s → (mine s).1 = result ∧ known (mine s).2)
    (hyours : ∀ a, result = .ok a → ∀ source s, known s → (yours source s).1 = .ok a ∧
      known (yours source s).2 ∧ (yours source s).2.drawn = s.drawn)
    {f : α → Branches} {next : Source → α → Walk Text}
    (hnext : ∀ a, result = .ok a → Reaches known settled scope (f a) fun source => next source a) :
    Reaches known settled scope (Branches.ofSession mine f) fun source =>
      Walk.ofSession (yours source) >>= next source := by
  -- the lookup answers the same in every known session, so there is one result to look at
  cases result with
  | error error =>
    exact ⟨⟨[], some error⟩, .ofSession_error fun s hs => (hmine s hs).1,
      (fun _ hmem => by cases hmem), fun h => by cases h⟩
  | ok a =>
    obtain ⟨listing, hdenotes, hsettled, harrives⟩ := hnext a rfl
    refine ⟨listing, hdenotes.ofSession_ok hmine, hsettled, fun hnone branch hmem => ?_⟩
    obtain ⟨draws, hdraws, harrive⟩ := harrives hnone branch hmem
    refine ⟨draws, hdraws, fun source w hw hs hbegins => ?_⟩
    obtain ⟨hresult, hknown, hdrawn⟩ := hyours a rfl source w.session hs
    rcases hrun : yours source w.session with ⟨result, after⟩
    rw [hrun] at hresult hknown hdrawn
    cases hresult
    dsimp only at hdrawn
    have hsession : Walk.ofSession (yours source) w = (.ok a, { w with session := after }) := by
      rw [Walk.ofSession, hrun]
    rw [← hdrawn] at hbegins
    obtain ⟨last, hlast, hagrees, hparents, hknown', hdrawn'⟩ :=
      harrive source { w with session := after } hw hknown hbegins
    exact ⟨last, (Walk.bind_ok hsession).trans hlast, hagrees, hparents, hknown',
      hdrawn'.trans (by rw [hdrawn])⟩

/-- Walks that reach branches, one for each source of draws. -/
def comparison (known : Session → Prop) : Comparison Source where
  holds := Reaches known
  mono h hsettled := h.mono hsettled
  congr h hsame := h.congr hsame
  pure hsettled _ := single hsettled fun _ w hw hs _ => ⟨w, rfl, hw, rfl, hs, rfl⟩
  bindName hsettled := single hsettled fun _ _ hw hs _ => ⟨_, rfl, hw.bind _ _, rfl, hs, rfl⟩
  unknown _ := fail _ _
  bind h hnext := h.bind hnext
  within h hsettled := h.within hsettled

end Reaches

end PromptTemplate
