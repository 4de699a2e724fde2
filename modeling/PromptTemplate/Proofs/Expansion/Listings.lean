/-
`Listings.lean` -- what a run comes to, when sessions do not matter.

A run holds its branches behind functions of a session, because the walks of forced
nodes draw and count. Where no node is forced, the sessions that a run can be resumed
with change nothing of its branches, and the run is a list with an end: `Listing`.
`Run.Denotes` says so of a run for all sessions that keep an invariant, and one lemma
for each way of putting runs together says what the result denotes. Taking the
branches of a run yields its listing (`Run.Denotes.take_none`).
-/
import PromptTemplate.Proofs.Expansion.Runs

set_option autoImplicit false

namespace PromptTemplate

/-! ## 1. Listings -/

/-- Branches in order, and the error that ends them, if one does. -/
structure Listing where
  branches : List Branch
  error : Option WalkError

namespace Listing

/-- One listing after another; nothing follows an error. -/
def append (first next : Listing) : Listing :=
  match first.error with
  | none => ⟨first.branches ++ next.branches, next.error⟩
  | some _ => first

/-- For each branch the listing that it leads to, and at last the end. -/
def bindAll (f : Branch → Listing) (error : Option WalkError) : List Branch → Listing
  | [] => ⟨[], error⟩
  | branch :: branches => (f branch).append (bindAll f error branches)

/-- For each branch of a listing the listing that it leads to. -/
def bind (listing : Listing) (f : Branch → Listing) : Listing :=
  bindAll f listing.error listing.branches

/-- The listings of the members of a list, one after another. -/
def forEach {α : Type} (f : α → Listing) : List α → Listing
  | [] => ⟨[], none⟩
  | a :: rest => (f a).append (forEach f rest)

/-- The branches whose text was not seen before. -/
def distinctFrom : (seen : List Text) → List Branch → List Branch
  | _, [] => []
  | seen, branch :: branches =>
    if seen.contains branch.text then distinctFrom seen branches
    else branch :: distinctFrom (branch.text :: seen) branches

/-- How taking all branches of a listing ends. -/
def ending (listing : Listing) : Ending :=
  match listing.error with
  | none => .exhausted
  | some error => .failed error

/-- A listing is exhausted if it ends without an error. -/
theorem ending_eq_exhausted {listing : Listing} :
    listing.ending = .exhausted ↔ listing.error = none := by
  unfold ending
  cases listing.error <;> simp

/-- A branch in front stays in front. -/
theorem cons_append (branch : Branch) (listing next : Listing) :
    append ⟨branch :: listing.branches, listing.error⟩ next =
      ⟨branch :: (listing.append next).branches, (listing.append next).error⟩ := by
  cases herror : listing.error with
  | none => simp only [append, herror, List.cons_append]
  | some error => simp only [append, herror]

/-! ### Which branches are in a listing -/

/-- Every branch of two listings put together is in one of them. -/
theorem mem_append {first next : Listing} {branch : Branch}
    (h : branch ∈ (first.append next).branches) :
    branch ∈ first.branches ∨ branch ∈ next.branches := by
  unfold append at h
  cases herror : first.error with
  | none =>
    rw [herror] at h
    exact List.mem_append.1 h
  | some error =>
    rw [herror] at h
    exact .inl h

/-- Two listings put together end without an error just when both do, and then no
branch is lost. -/
theorem append_error_none {first next : Listing} (h : (first.append next).error = none) :
    first.error = none ∧ next.error = none ∧
      (first.append next).branches = first.branches ++ next.branches := by
  unfold append at h ⊢
  cases herror : first.error with
  | none =>
    rw [herror] at h
    exact ⟨rfl, h, rfl⟩
  | some error =>
    -- what follows an error is dropped, so the error is that of the whole
    rw [herror] at h
    rw [herror] at h
    cases h

/-- What a branch leads to is in its listing. -/
theorem mem_bindAll {f : Branch → Listing} {error : Option WalkError} {found : Branch} :
    ∀ {branches : List Branch}, found ∈ (bindAll f error branches).branches →
      ∃ branch ∈ branches, found ∈ (f branch).branches
  | [], h => nomatch h
  | branch :: branches, h => by
    rcases mem_append h with hfirst | hnext
    · exact ⟨branch, List.mem_cons_self, hfirst⟩
    · obtain ⟨other, hother, hfound⟩ := mem_bindAll hnext
      exact ⟨other, List.mem_cons_of_mem _ hother, hfound⟩

/-- Going on from every branch ends without an error just when every part does, and
then no branch of a part is lost. -/
theorem bindAll_error_none {f : Branch → Listing} {error : Option WalkError} :
    ∀ {branches : List Branch}, (bindAll f error branches).error = none →
      error = none ∧ ∀ branch ∈ branches,
        (f branch).error = none ∧ ∀ found ∈ (f branch).branches,
          found ∈ (bindAll f error branches).branches
  | [], h => ⟨h, fun _ hmem => nomatch hmem⟩
  | branch :: branches, h => by
    obtain ⟨hfirst, hnext, hall⟩ := append_error_none h
    obtain ⟨herror, hrest⟩ := bindAll_error_none hnext
    refine ⟨herror, fun other hother => ?_⟩
    rw [bindAll, hall]
    rcases List.mem_cons.1 hother with rfl | hother
    · exact ⟨hfirst, fun found hfound => List.mem_append_left _ hfound⟩
    · obtain ⟨hnone, hkept⟩ := hrest other hother
      exact ⟨hnone, fun found hfound => List.mem_append_right _ (hkept found hfound)⟩

/-- What is in the listing of members is in that of one of them. -/
theorem mem_forEach {α : Type} {f : α → Listing} {found : Branch} :
    ∀ {members : List α}, found ∈ (forEach f members).branches →
      ∃ a ∈ members, found ∈ (f a).branches
  | [], h => nomatch h
  | a :: rest, h => by
    rcases mem_append h with hfirst | hnext
    · exact ⟨a, List.mem_cons_self, hfirst⟩
    · obtain ⟨other, hother, hfound⟩ := mem_forEach hnext
      exact ⟨other, List.mem_cons_of_mem _ hother, hfound⟩

/-- Without an error no member has one, and all their branches are there. -/
theorem forEach_error_none {α : Type} {f : α → Listing} :
    ∀ {members : List α}, (forEach f members).error = none →
      ∀ a ∈ members, (f a).error = none ∧ ∀ found ∈ (f a).branches,
        found ∈ (forEach f members).branches
  | [], _ => fun _ hmem => nomatch hmem
  | a :: rest, h => by
    obtain ⟨hfirst, hnext, hall⟩ := append_error_none h
    intro other hother
    rw [forEach, hall]
    rcases List.mem_cons.1 hother with rfl | hother
    · exact ⟨hfirst, fun found hfound => List.mem_append_left _ hfound⟩
    · obtain ⟨hnone, hkept⟩ := forEach_error_none hnext other hother
      exact ⟨hnone, fun found hfound => List.mem_append_right _ (hkept found hfound)⟩

/-- No branch is made up. -/
theorem mem_of_mem_distinctFrom {found : Branch} :
    ∀ {seen : List Text} {branches : List Branch}, found ∈ distinctFrom seen branches →
      found ∈ branches
  | _, [], h => nomatch h
  | seen, branch :: branches, h => by
    rw [distinctFrom] at h
    split at h
    · exact List.mem_cons_of_mem _ (mem_of_mem_distinctFrom h)
    · rcases List.mem_cons.1 h with rfl | h
      · exact List.mem_cons_self
      · exact List.mem_cons_of_mem _ (mem_of_mem_distinctFrom h)

/-- Of the branches with one text the first is kept. -/
theorem exists_mem_distinctFrom {branch : Branch} :
    ∀ (seen : List Text) {branches : List Branch}, branch ∈ branches →
      branch.text ∈ seen ∨ ∃ kept ∈ distinctFrom seen branches, kept.text = branch.text
  | _, [], h => nomatch h
  | seen, other :: branches, h => by
    rw [distinctFrom]
    split
    · next hseen =>
      rcases List.mem_cons.1 h with rfl | h
      · exact .inl (List.contains_iff_mem.1 hseen)
      · exact exists_mem_distinctFrom seen h
    · next hseen =>
      rcases List.mem_cons.1 h with rfl | h
      · exact .inr ⟨branch, List.mem_cons_self, rfl⟩
      · -- `other` was kept, so its text counts as seen behind it
        rcases exists_mem_distinctFrom (other.text :: seen) h with hmem | ⟨kept, hkept, htext⟩
        · rcases List.mem_cons.1 hmem with heq | hmem
          · exact .inr ⟨other, List.mem_cons_self, heq.symm⟩
          · exact .inl hmem
        · exact .inr ⟨kept, List.mem_cons_of_mem _ hkept, htext⟩

/-- The listings of the members of a list, as a function; what it is elsewhere does not
matter. -/
theorem exists_parts {α : Type} {members : List α} {p : α → Listing → Prop}
    (h : ∀ a ∈ members, ∃ listing, p a listing) :
    ∃ part : α → Listing, ∀ a ∈ members, p a (part a) := by
  have hpart : ∀ a, ∃ part, a ∈ members → p a part := by
    intro a
    by_cases hmem : a ∈ members
    · obtain ⟨part, hpart⟩ := h a hmem
      exact ⟨part, fun _ => hpart⟩
    · exact ⟨⟨[], none⟩, fun hin => absurd hin hmem⟩
  exact Classical.axiomOfChoice hpart

end Listing

/-! ## 2. What a run denotes -/

/-- The run has the branches of the listing and its end, with whatever sessions it is
resumed, as long as they keep the invariant. The sessions that it hands out keep it
as well. -/
inductive Run.Denotes (known : Session → Prop) : Run → Listing → Prop
  | done (s : Session) (keeps : known s) : Denotes known (.done s) ⟨[], none⟩
  | fail (error : WalkError) (s : Session) : Denotes known (.fail error s) ⟨[], some error⟩
  | yield (branch : Branch) (s : Session) (rest : Session → Run) (listing : Listing)
      (keeps : known s)
      (goesOn : ∀ s, known s → Denotes known (rest s) listing) :
    Denotes known (.yield branch s rest) ⟨branch :: listing.branches, listing.error⟩

/-- The branches come to the listing in every session that keeps the invariant. -/
def Branches.Denotes (known : Session → Prop) (branches : Branches) (listing : Listing) : Prop :=
  ∀ s, known s → (branches s).Denotes known listing

variable {known : Session → Prop}

namespace Run.Denotes

/-- Taking all branches of a run gives its listing. -/
theorem take_none {run : Run} {listing : Listing} (h : run.Denotes known listing) :
    ∃ s, run.take none = (listing.branches, listing.ending, s) := by
  induction h with
  | done s _ => exact ⟨s, rfl⟩
  | fail error s => exact ⟨s, rfl⟩
  | yield branch s rest listing keeps _ ih =>
    obtain ⟨s', hs'⟩ := ih s keeps
    refine ⟨s', ?_⟩
    simp only [Run.take, Option.map_none, hs', reduceCtorEq, if_false]
    rfl

/-- A run that goes on denotes both listings, one behind the other. -/
theorem append {run : Run} {listing : Listing} (h : run.Denotes known listing) {next : Branches}
    {following : Listing} (hnext : next.Denotes known following) :
    (run.append next).Denotes known (listing.append following) := by
  induction h with
  | done s keeps => exact hnext s keeps
  | fail error s => exact .fail error s
  | yield branch s rest listing keeps _ ih =>
    rw [Listing.cons_append]
    exact .yield branch s _ _ keeps ih

/-- What each branch leads to denotes its listing. -/
theorem bind {run : Run} {listing : Listing} (h : run.Denotes known listing) {f : Branch → Branches}
    {g : Branch → Listing} (hf : ∀ branch ∈ listing.branches, (f branch).Denotes known (g branch)) :
    (run.bind f).Denotes known (listing.bind g) := by
  induction h with
  | done s keeps => exact .done s keeps
  | fail error s => exact .fail error s
  | yield branch s rest listing keeps _ ih =>
    exact (hf branch List.mem_cons_self s keeps).append fun s hs =>
      ih s hs fun other hother => hf other (List.mem_cons_of_mem _ hother)

/-- Leaving out texts that were there leaves them out of the listing. -/
theorem distinct {run : Run} {listing : Listing} (h : run.Denotes known listing) :
    ∀ seen : List Text, (run.distinct seen).Denotes known
      ⟨Listing.distinctFrom seen listing.branches, listing.error⟩ := by
  induction h with
  | done s keeps => exact fun _ => .done s keeps
  | fail error s => exact fun _ => .fail error s
  | yield branch s rest listing keeps _ ih =>
    -- both sides decide by the text of the branch, which no session changes
    intro seen
    rw [Run.distinct, Listing.distinctFrom]
    by_cases hseen : branch.text ∈ seen
    · rw [if_pos hseen, if_pos (List.contains_iff_mem.2 hseen)]
      exact ih s keeps seen
    · rw [if_neg hseen, if_neg fun hcontains => hseen (List.contains_iff_mem.1 hcontains)]
      exact .yield branch s _ ⟨_, _⟩ keeps fun s hs => ih s hs (branch.text :: seen)

end Run.Denotes

namespace Branches.Denotes

/-- One branch denotes itself. -/
theorem single (branch : Branch) : (Branches.single branch).Denotes known ⟨[branch], none⟩ :=
  fun s keeps => .yield branch s _ ⟨[], none⟩ keeps fun s hs => .done s hs

/-- An error denotes itself behind no branch. -/
theorem fail (error : WalkError) : (Branches.fail error).Denotes known ⟨[], some error⟩ :=
  fun s _ => .fail error s

/-- What each branch leads to denotes its listing. -/
theorem bind {branches : Branches} {listing : Listing} (h : branches.Denotes known listing)
    {f : Branch → Branches} {g : Branch → Listing}
    (hf : ∀ branch ∈ listing.branches, (f branch).Denotes known (g branch)) :
    (branches.bind f).Denotes known (listing.bind g) :=
  fun s hs => (h s hs).bind hf

/-- Leaving out texts leaves them out of the listing. -/
theorem distinct {branches : Branches} {listing : Listing} (h : branches.Denotes known listing) :
    branches.distinct.Denotes known ⟨Listing.distinctFrom [] listing.branches, listing.error⟩ :=
  fun s hs => (h s hs).distinct []

/-- Branches that can all be taken are their listing, and that has no error. -/
theorem of_take_none {branches : Branches} {listing : Listing} (h : branches.Denotes known listing)
    {s : Session} (hs : known s) {found : List Branch} {after : Session}
    (hall : branches.take none s = (found, .exhausted, after)) :
    listing.branches = found ∧ listing.error = none := by
  obtain ⟨last, htake⟩ := (h s hs).take_none
  have hlisting : (listing.branches, listing.ending, last) = (found, Ending.exhausted, after) :=
    htake.symm.trans hall
  exact ⟨congrArg (·.1) hlisting, Listing.ending_eq_exhausted.1 (congrArg (·.2.1) hlisting)⟩

/-- Members denote their listings, one behind the other. -/
theorem forEach {α : Type} {f : α → Branches} {g : α → Listing} :
    ∀ {members : List α}, (∀ a ∈ members, (f a).Denotes known (g a)) →
      (Branches.forEach f members).Denotes known (Listing.forEach g members)
  | [], _ => fun s hs => .done s hs
  | a :: _, h => fun s hs =>
    (h a List.mem_cons_self s hs).append
      (forEach fun other hother => h other (List.mem_cons_of_mem _ hother))

end Branches.Denotes

end PromptTemplate
