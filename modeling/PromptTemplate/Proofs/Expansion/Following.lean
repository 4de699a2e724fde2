/-
`Following.lean` -- walks that follow branches.

A walk follows branches from a scope if, whenever the branches come to an end without
an error, it ends at one of them: with the text of the branch, with a scope that
answers every name as the branch's scope does, and with the frames around the scope as
they were. The relation says nothing of methods, draws or counters. It is kept by the
ways in which rules of nodes are put together (`Follows.bind`, `Follows.choose`,
`Follows.within`, ...), so a simulation of walks by branches is proved rule by rule,
with the recursion as the only induction.
-/
import PromptTemplate.Expansion.Walk
import PromptTemplate.Proofs.Command.Everywhere
import PromptTemplate.Proofs.Expansion.Listings

set_option autoImplicit false

namespace PromptTemplate

/-! ## 1. Walks as a monad -/

namespace Walk

variable {α β γ : Type}

theorem pure_bind (a : α) (next : α → Walk β) : (pure a : Walk α) >>= next = next a := rfl

theorem bind_apply (action : Walk α) (next : α → Walk β) (w : Walking) :
    (action >>= next) w = match action w with
      | (.ok a, w) => next a w
      | (.error error, w) => (.error error, w) := rfl

theorem bind_ok {action : Walk α} {next : α → Walk β} {w after : Walking} {a : α}
    (h : action w = (.ok a, after)) : (action >>= next) w = next a after := by
  rw [bind_apply, h]

theorem bind_assoc (action : Walk α) (next : α → Walk β) (last : β → Walk γ) :
    (action >>= next) >>= last = action >>= fun a => next a >>= last := by
  funext w
  rw [bind_apply, bind_apply, bind_apply]
  rcases action w with ⟨result, after⟩
  cases result with
  | ok a => rfl
  | error error => rfl

theorem bind_pure (action : Walk α) : (action >>= fun a => pure a) = action := by
  funext w
  rw [bind_apply]
  rcases action w with ⟨result, after⟩
  cases result with
  | ok a => rfl
  | error error => rfl

/-- Looking a name up finds what any scope says that agrees with the present one. -/
theorem lookup_bind {scope : Scope} {w : Walking} (hw : w.scope.Agrees scope) (name : Text)
    (next : Option Binding → Walk β) : (lookup name >>= next) w = next (scope.lookup name) w := by
  rw [← hw name]
  rfl

/-- A turn among choices is the place of one of them, and moves only the counters. -/
theorem turn_apply (label : Label) {size : Nat} (hsize : 0 < size) (w : Walking) :
    ∃ place counters, place < size ∧
      turn label size w =
        (.ok place, { w with session := { w.session with counters := counters } }) := by
  refine ⟨w.session.counters.position label % size, (w.session.counters.next label size).2, ?_, ?_⟩
  · exact Nat.mod_lt _ hsize
  · rw [turn, Counters.next, if_neg (by omega)]

theorem pick_apply {members : List α} {place : Nat} (hplace : place < members.length)
    (w : Walking) :
    pick members (some place) w = (.ok members[place], w) := by
  rw [pick, Option.bind_some, List.getElem?_eq_getElem hplace]
  rfl

end Walk

/-! ## 2. The relation -/

/-- Goes through an action of the session, as `Walk.ofSession` does for walks. -/
def Branches.ofSession {α : Type} (action : Session → Except WalkError α × Session)
    (f : α → Branches) : Branches :=
  fun s => match action s with
    | (.error error, s) => .fail error s
    | (.ok a, s) => f a s

namespace Branches.Denotes

variable {known : Session → Prop} {α : Type} {action : Session → Except WalkError α × Session}
  {f : α → Branches}

/-- An action of the session that fails leaves nothing to list. -/
theorem ofSession_error {error : WalkError} (haction : ∀ s, known s → (action s).1 = .error error) :
    (Branches.ofSession action f).Denotes known ⟨[], some error⟩ := by
  intro s hs
  have hresult := haction s hs
  rcases hrun : action s with ⟨result, after⟩
  rw [hrun] at hresult
  cases hresult
  rw [Branches.ofSession, hrun]
  exact .fail error after

/-- Behind an action of the session the listing is that of the branches for its result. -/
theorem ofSession_ok {a : α} {listing : Listing} (h : (f a).Denotes known listing)
    (haction : ∀ s, known s → (action s).1 = .ok a ∧ known (action s).2) :
    (Branches.ofSession action f).Denotes known listing := by
  intro s hs
  obtain ⟨hresult, hafter⟩ := haction s hs
  rcases hrun : action s with ⟨result, after⟩
  rw [hrun] at hresult hafter
  cases hresult
  rw [Branches.ofSession, hrun]
  exact h after hafter

end Branches.Denotes

/-- From `w` the walk ends at the branch. -/
def Walk.Arrives (known : Session → Prop) (walk : Walk Text) (w : Walking) (branch : Branch) :
    Prop :=
  ∃ after, walk w = (.ok branch.text, after) ∧ after.scope.Agrees branch.scope ∧
    after.scope.parents = w.scope.parents ∧ known after.session

/-- The branches are this listing, whatever the session; every scope that one of them
leaves is settled; and if no error ends them, the walk ends at one of them from every
state that agrees with the scope. -/
structure FollowsBy (known : Session → Prop) (settled : Scope → Prop) (scope : Scope)
    (branches : Branches) (walk : Walk Text) (listing : Listing) : Prop where
  denotes : branches.Denotes known listing
  settles : ∀ branch ∈ listing.branches, settled branch.scope
  arrives : listing.error = none → ∀ w : Walking, w.scope.Agrees scope → known w.session →
    ∃ branch ∈ listing.branches, walk.Arrives known w branch

/-- The walk follows the branches from the scope. -/
def Follows (known : Session → Prop) (settled : Scope → Prop) (scope : Scope) (branches : Branches)
    (walk : Walk Text) : Prop :=
  ∃ listing, FollowsBy known settled scope branches walk listing

namespace Follows

variable {known : Session → Prop} {settled between : Scope → Prop} {scope : Scope}
  {branches : Branches} {walk : Walk Text}

theorem mono (h : Follows known between scope branches walk)
    (hsettled : ∀ after, between after → settled after) :
    Follows known settled scope branches walk := by
  obtain ⟨listing, hdenotes, hbetween, harrives⟩ := h
  exact ⟨listing, hdenotes, fun branch hmem => hsettled _ (hbetween branch hmem), harrives⟩

/-- Only what the walk does from states that agree with the scope counts. -/
theorem congr {other : Walk Text} (h : Follows known settled scope branches walk)
    (hsame : ∀ w : Walking, w.scope.Agrees scope → other w = walk w) :
    Follows known settled scope branches other := by
  obtain ⟨listing, hdenotes, hsettled, harrives⟩ := h
  refine ⟨listing, hdenotes, hsettled, fun hnone w hw hs => ?_⟩
  obtain ⟨branch, hmem, harrive⟩ := harrives hnone w hw hs
  exact ⟨branch, hmem, by rw [Walk.Arrives, hsame w hw]; exact harrive⟩

/-- Every walk follows branches that are an error. -/
theorem fail (error : WalkError) (walk : Walk Text) :
    Follows known settled scope (.fail error) walk :=
  ⟨⟨[], some error⟩, .fail error, (fun _ hmem => nomatch hmem), (fun h => nomatch h)⟩

/-- A walk follows one branch if it always ends there. -/
theorem single {branch : Branch} (hsettled : settled branch.scope)
    (harrives : ∀ w : Walking, w.scope.Agrees scope → known w.session →
      walk.Arrives known w branch) :
    Follows known settled scope (.single branch) walk := by
  refine ⟨⟨[branch], none⟩, .single branch, fun found hmem => ?_, fun _ w hw hs => ?_⟩
  · rw [List.mem_singleton.1 hmem]
    exact hsettled
  · exact ⟨branch, List.mem_singleton_self _, harrives w hw hs⟩

/-- A text without further ado. -/
theorem pure (hsettled : settled scope) (text : Text) :
    Follows known settled scope (.single ⟨text, scope⟩) (pure text) :=
  single hsettled fun w hw hs => ⟨w, rfl, hw, rfl, hs⟩

/-- A walk after a walk follows the branches to which the branches of the first lead. -/
theorem bind (h : Follows known between scope branches walk) {f : Branch → Branches}
    {next : Text → Walk Text}
    (hnext : ∀ branch, between branch.scope →
      Follows known settled branch.scope (f branch) (next branch.text)) :
    Follows known settled scope (branches.bind f) (walk >>= next) := by
  obtain ⟨listing, hlisting⟩ := h
  -- which branches follow each branch is known only of those in the listing
  obtain ⟨part, hpart⟩ := Listing.exists_parts fun branch hmem =>
    hnext branch (hlisting.settles branch hmem)
  refine ⟨listing.bind part, hlisting.denotes.bind fun branch hmem => (hpart branch hmem).denotes,
    ?_, ?_⟩
  · intro found hfound
    obtain ⟨branch, hmem, hin⟩ := Listing.mem_bindAll hfound
    exact (hpart branch hmem).settles found hin
  · intro hnone w hw hs
    -- no error in the whole is no error in any part, so the first walk ends at a branch
    -- whose own part the second walk can follow
    obtain ⟨herror, hkept⟩ := Listing.bindAll_error_none hnone
    obtain ⟨branch, hmem, after, hrun, hagrees, hparents, hknown⟩ := hlisting.arrives herror w hw hs
    obtain ⟨hpartNone, hpartKept⟩ := hkept branch hmem
    obtain ⟨found, hfound, last, hrun', hagrees', hparents', hknown'⟩ :=
      (hpart branch hmem).arrives hpartNone after hagrees hknown
    exact ⟨found, hpartKept found hfound, last, (Walk.bind_ok hrun).trans hrun', hagrees',
      hparents'.trans hparents, hknown'⟩

/-- A walk that takes one of several members follows the branches of all of them. -/
theorem choose {α : Type} {members : List α} {f : α → Branches} {selection : Walk α}
    {next : α → Walk Text}
    (hselection : ∀ w : Walking, known w.session → ∃ a ∈ members, ∃ after, selection w =
      (.ok a, after) ∧ after.scope = w.scope ∧ known after.session)
    (hnext : ∀ a ∈ members, Follows known settled scope (f a) (next a)) :
    Follows known settled scope (Branches.forEach f members) (selection >>= next) := by
  obtain ⟨part, hpart⟩ := Listing.exists_parts hnext
  refine ⟨Listing.forEach part members, .forEach fun a hmem => (hpart a hmem).denotes, ?_, ?_⟩
  · intro found hfound
    obtain ⟨a, hmem, hin⟩ := Listing.mem_forEach hfound
    exact (hpart a hmem).settles found hin
  · intro hnone w hw hs
    obtain ⟨a, hmem, after, hrun, hscope, hknown⟩ := hselection w hs
    obtain ⟨hpartNone, hpartKept⟩ := Listing.forEach_error_none hnone a hmem
    obtain ⟨found, hfound, last, hrun', hagrees', hparents', hknown'⟩ :=
      (hpart a hmem).arrives hpartNone after (hscope ▸ hw) hknown
    exact ⟨found, hpartKept found hfound, last, (Walk.bind_ok hrun).trans hrun', hagrees',
      hparents'.trans (congrArg Scope.parents hscope), hknown'⟩

/-- Leaving out repeated texts loses nothing where all branches leave the same scope. -/
theorem distinct (h : Follows known (· = scope) scope branches walk) :
    Follows known (· = scope) scope branches.distinct walk := by
  obtain ⟨listing, hdenotes, hsame, harrives⟩ := h
  refine ⟨_, hdenotes.distinct,
    fun branch hmem => hsame branch (Listing.mem_of_mem_distinctFrom hmem), fun hnone w hw hs => ?_⟩
  obtain ⟨branch, hmem, harrive⟩ := harrives hnone w hw hs
  rcases Listing.exists_mem_distinctFrom [] hmem with hseen | ⟨kept, hkept, htext⟩
  · cases hseen
  · -- the branch that was kept has the text and the scope of the one that was left out
    have heq : kept = branch := by
      have hscope :=
        (hsame kept (Listing.mem_of_mem_distinctFrom hkept)).trans (hsame branch hmem).symm
      cases kept
      cases branch
      cases htext
      cases hscope
      rfl
    exact ⟨kept, hkept, heq ▸ harrive⟩

/-- A walk in a scope inside the present one follows the branches that are rendered
there and come back with the present scope. -/
theorem within {frame : Frame} (h : Follows known between (scope.push frame) branches walk)
    (hsettled : settled scope) :
    Follows known settled scope (branches.map fun branch => ⟨branch.text, scope⟩)
      (Walk.within frame walk) := by
  obtain ⟨listing, hdenotes, -, harrives⟩ := h
  rw [← Branches.bind_single fun branch : Branch => (⟨branch.text, scope⟩ : Branch)]
  refine ⟨_, hdenotes.bind fun branch _ => .single _, fun found hfound => ?_,
    fun hnone w hw hs => ?_⟩
  · obtain ⟨branch, -, hin⟩ := Listing.mem_bindAll hfound
    rw [List.mem_singleton.1 hin]
    exact hsettled
  · obtain ⟨herror, hkept⟩ := Listing.bindAll_error_none hnone
    obtain ⟨branch, hmem, after, hrun, -, hparents, hknown⟩ :=
      harrives herror { w with scope := w.scope.push frame } (hw.push frame) hs
    -- the frames below are as they were, so leaving the scope gives back the outer one
    have hpop : after.scope.pop = w.scope := Scope.pop_of_parents_push hparents
    refine ⟨⟨branch.text, scope⟩, (hkept branch hmem).2 _ (List.mem_singleton_self _),
      { after with scope := after.scope.pop }, ?_, ?_, ?_, hknown⟩
    · rw [Walk.within, hrun]
    · rw [hpop]
      exact hw
    · rw [hpop]

/-- Both sides go through an action of the session whose result the session does not
decide: if the branches get `a` from theirs, the walk does from its own. -/
theorem ofSession {α : Type} {mine yours : Session → Except WalkError α × Session}
    {result : Except WalkError α} (hmine : ∀ s, known s → (mine s).1 = result ∧ known (mine s).2)
    (hyours : ∀ a, result = .ok a → ∀ s, known s → (yours s).1 = .ok a ∧ known (yours s).2)
    {f : α → Branches} {next : α → Walk Text}
    (hnext : ∀ a, result = .ok a → Follows known settled scope (f a) (next a)) :
    Follows known settled scope (Branches.ofSession mine f)
      (Walk.ofSession yours >>= next) := by
  cases result with
  | error error =>
    -- the branches are an error, and of the walk nothing is asked
    exact ⟨⟨[], some error⟩, .ofSession_error fun s hs => (hmine s hs).1,
      (fun _ hmem => nomatch hmem), (fun h => nomatch h)⟩
  | ok a =>
    obtain ⟨listing, hdenotes, hsettled, harrives⟩ := hnext a rfl
    refine ⟨listing, hdenotes.ofSession_ok hmine, hsettled, fun hnone w hw hs => ?_⟩
    obtain ⟨hresult, hknown⟩ := hyours a rfl w.session hs
    rcases hrun : yours w.session with ⟨result, after⟩
    rw [hrun] at hresult hknown
    cases hresult
    obtain ⟨branch, hmem, last, hlast, hagrees, hparents, hknown'⟩ :=
      harrives hnone { w with session := after } hw hknown
    have hsession : Walk.ofSession yours w = (.ok a, { w with session := after }) := by
      rw [Walk.ofSession, hrun]
    exact ⟨branch, hmem, last, (Walk.bind_ok hsession).trans hlast, hagrees, hparents, hknown'⟩

end Follows

end PromptTemplate
