/-
`Likeness.lean` -- runs that sessions which are alike can not tell apart.

A `Likeness` says which sessions count as alike and with which errors rendering may end. Walks
keep it if from one scope and alike sessions they end alike: with the same value and scope, or
with the same error, and in alike sessions again; a run keeps it if it can be followed branch by
branch, resumed each time with alike sessions. Taken between two different sessions this is
independence from what they do not share, and taken between a session and itself it is an
invariant with a list of permitted errors. The rules of the nodes are those of every comparison
(`Comparison.Sound.node`), so a likeness is kept by whole trees as soon as it is kept by the few
actions that look at a session at all (`Likeness.Kept`): draws, turns and the candidates of
wildcards.
-/
import PromptTemplate.Proofs.Expansion.Choosing
import PromptTemplate.Proofs.Expansion.Manners

set_option autoImplicit false

namespace PromptTemplate

/-! ## 1. Walks and runs that end alike -/

/-- Which sessions are alike, and which errors rendering may end with. -/
structure Likeness where
  alike : Session → Session → Prop
  allowed : WalkError → Prop

namespace Likeness

variable {α β : Type} {k : Likeness}

/-- Two ends of a walk: with the same value and the same scope, of which something is known and
which is inside of these frames, or with the same error. -/
inductive Ends (k : Likeness) (post : α → Scope → Prop) (parents : List Frame) :
    Except WalkError α × Walking → Except WalkError α × Walking → Prop
  | ok {a : α} {after : Scope} {s t : Session} (hpost : post a after)
      (hparents : after.parents = parents) (halike : k.alike s t) :
    Ends k post parents (.ok a, ⟨after, s⟩) (.ok a, ⟨after, t⟩)
  | error {error : WalkError} {v w : Walking} (hallowed : k.allowed error)
      (halike : k.alike v.session w.session) :
    Ends k post parents (.error error, v) (.error error, w)

/-- From the scope and from alike sessions the walk ends alike. -/
def Walks (k : Likeness) (post : α → Scope → Prop) (scope : Scope) (walk : Walk α) : Prop :=
  ∀ s t, k.alike s t → k.Ends post scope.parents (walk ⟨scope, s⟩) (walk ⟨scope, t⟩)

/-- The action leaves the scope alone and comes to a value of this kind. -/
def Takes (k : Likeness) (p : α → Prop) (selection : Walk α) : Prop :=
  ∀ scope, k.Walks (fun a after => p a ∧ after = scope) scope selection

/-- Two runs with the same branches and the same end, whatever alike sessions they are resumed
with. -/
inductive Runs (k : Likeness) (settled : Scope → Prop) : Run → Run → Prop
  | done {s t : Session} (halike : k.alike s t) : Runs k settled (.done s) (.done t)
  | fail {error : WalkError} {s t : Session} (hallowed : k.allowed error) (halike : k.alike s t) :
    Runs k settled (.fail error s) (.fail error t)
  | yield {branch : Branch} {s t : Session} {rest other : Branches}
      (hsettled : settled branch.scope) (halike : k.alike s t)
      (hrest : ∀ s t, k.alike s t → Runs k settled (rest s) (other t)) :
    Runs k settled (.yield branch s rest) (.yield branch t other)

/-- From alike sessions the branches are the same. -/
def Yields (k : Likeness) (settled : Scope → Prop) (branches : Branches) : Prop :=
  ∀ s t, k.alike s t → k.Runs settled (branches s) (branches t)

/-- Two answers of a session: the same value, of which something is known, or the same error. -/
inductive Replies (k : Likeness) (p : α → Prop) :
    Except WalkError α × Session → Except WalkError α × Session → Prop
  | ok {a : α} {s t : Session} (ha : p a) (halike : k.alike s t) : Replies k p (.ok a, s) (.ok a, t)
  | error {error : WalkError} {s t : Session} (hallowed : k.allowed error) (halike : k.alike s t) :
    Replies k p (.error error, s) (.error error, t)

/-- Alike sessions answer the action alike. -/
def Answers (k : Likeness) (p : α → Prop) (action : Session → Except WalkError α × Session) :
    Prop :=
  ∀ s t, k.alike s t → k.Replies p (action s) (action t)

/-! ### Walks -/

namespace Walks

variable {post between : α → Scope → Prop} {scope : Scope} {walk : Walk α}

/-- A walk that ends so ends under a weaker condition. -/
theorem mono (h : k.Walks between scope walk) (hpost : ∀ a after, between a after → post a after) :
    k.Walks post scope walk := by
  intro s t halike
  have hends := h s t halike
  revert hends
  generalize walk ⟨scope, s⟩ = mine, walk ⟨scope, t⟩ = yours
  rintro (⟨hbetween, hparents, halike⟩ | ⟨hallowed, halike⟩)
  · exact .ok (hpost _ _ hbetween) hparents halike
  · exact .error hallowed halike

/-- A value that is given at once. -/
theorem pure {a : α} (hpost : post a scope) : k.Walks post scope (Pure.pure a) :=
  fun _ _ halike => .ok hpost rfl halike

/-- An error that is allowed. -/
theorem fail {error : WalkError} (hallowed : k.allowed error) :
    k.Walks post scope (Walk.fail error : Walk α) := fun _ _ halike => .error hallowed halike

/-- Steps one after another, if each ends alike. -/
theorem bind (h : k.Walks between scope walk) {later : β → Scope → Prop} {next : α → Walk β}
    (hnext : ∀ a after, between a after → k.Walks later after (next a)) :
    k.Walks later scope (walk >>= next) := by
  intro s t halike
  have hends := h s t halike
  rw [Walk.bind_apply, Walk.bind_apply]
  revert hends
  generalize walk ⟨scope, s⟩ = mine, walk ⟨scope, t⟩ = yours
  rintro (⟨hbetween, hparents, halike⟩ | ⟨hallowed, halike⟩)
  · -- the second walk goes on in the scope of the first, inside of the same frames
    rw [← hparents]
    exact hnext _ _ hbetween _ _ halike
  · exact .error hallowed halike

/-- A walk that begins with a selection. -/
theorem take {p : α → Prop} {selection : Walk α} (h : k.Takes p selection)
    {later : β → Scope → Prop} {next : α → Walk β}
    (hnext : ∀ a, p a → k.Walks later scope (next a)) :
    k.Walks later scope (selection >>= next) :=
  (h scope).bind fun a _ hafter => hafter.2 ▸ hnext a hafter.1

/-- A walk that begins with a selection in two parts. -/
theorem choose {γ : Type} {p : β → Prop} {first : Walk α} {next : α → Walk β}
    (h : k.Takes p (first >>= next)) {later : γ → Scope → Prop} {last : β → Walk γ}
    (hlast : ∀ b, p b → k.Walks later scope (last b)) :
    k.Walks later scope (first >>= fun a => next a >>= last) := by
  rw [← Walk.bind_assoc]
  exact take h hlast

/-- A walk in a frame of its own leaves the scope around it. -/
theorem within {frame : Frame} (h : k.Walks between (scope.push frame) walk)
    (hpost : ∀ a after, between a after → post a scope) :
    k.Walks post scope (Walk.within frame walk) := by
  intro s t halike
  have hends := h s t halike
  unfold Walk.within
  revert hends
  dsimp only
  generalize walk ⟨scope.push frame, s⟩ = mine, walk ⟨scope.push frame, t⟩ = yours
  rintro (⟨hbetween, hparents, halike⟩ | ⟨hallowed, halike⟩)
  · dsimp only
    rw [Scope.pop_of_parents_push hparents]
    exact .ok (hpost _ _ hbetween) rfl halike
  · exact .error hallowed halike

/-- Asking the session is taking what it answers. -/
theorem of_answers {p : α → Prop} {action : Session → Except WalkError α × Session}
    (h : k.Answers p action) : k.Takes p (Walk.ofSession action) := by
  intro scope s t halike
  have hreplies := h s t halike
  unfold Walk.ofSession
  revert hreplies
  dsimp only
  generalize action s = mine, action t = yours
  rintro (⟨ha, halike⟩ | ⟨hallowed, halike⟩)
  · exact .ok ⟨ha, rfl⟩ rfl halike
  · exact .error hallowed halike

end Walks

namespace Takes

variable {p q : α → Prop} {selection : Walk α}

/-- A selection of such values is one under a weaker condition. -/
theorem mono (h : k.Takes q selection) (hpq : ∀ a, q a → p a) : k.Takes p selection :=
  fun scope => (h scope).mono fun a _ hafter => ⟨hpq a hafter.1, hafter.2⟩

/-- A value that is selected at once. -/
theorem pure {a : α} (ha : p a) : k.Takes p (Pure.pure a) := fun _ => .pure ⟨ha, rfl⟩

/-- A selection that goes on by another one. -/
theorem bind (h : k.Takes q selection) {r : β → Prop} {next : α → Walk β}
    (hnext : ∀ a, q a → k.Takes r (next a)) : k.Takes r (selection >>= next) :=
  fun scope => .take h fun a ha => hnext a ha scope

/-- A value read off the session, and a mark left in it. -/
theorem of_session (value : Session → α) (mark : Session → Session)
    (h : ∀ s t, k.alike s t → p (value s) ∧ value t = value s ∧ k.alike (mark s) (mark t)) :
    k.Takes p fun w => (.ok (value w.session), { w with session := mark w.session }) := by
  intro scope s t halike
  obtain ⟨hvalue, hsame, hmark⟩ := h s t halike
  dsimp only
  rw [hsame]
  exact .ok ⟨hvalue, rfl⟩ rfl hmark

/-- Picking at an index that is in range, or out of range where that may happen. -/
theorem pick {members : List α} {index : Option Nat}
    (h : k.allowed .drawOutOfRange ∨ ∃ place, index = some place ∧ place < members.length) :
    k.Takes (· ∈ members) (Walk.pick members index) := by
  intro scope
  unfold Walk.pick
  split
  · next a hpicked =>
    obtain ⟨place, -, hplace⟩ := Option.bind_eq_some_iff.1 hpicked
    exact .pure ⟨List.mem_of_getElem? hplace, rfl⟩
  · next hnone =>
    rcases h with hallowed | ⟨place, rfl, hplace⟩
    · exact .fail hallowed
    · rw [Option.bind_some, List.getElem?_eq_getElem hplace] at hnone
      cases hnone

/-- The member whose turn it is. -/
theorem turn {label : Label} {members : List α} (hmembers : members ≠ [])
    (h : ∀ s t, k.alike s t → s.counters.position label = t.counters.position label ∧
      k.alike { s with counters := (s.counters.next label members.length).2 }
        { t with counters := (t.counters.next label members.length).2 }) :
    k.Takes (· ∈ members) (Walk.turn label members.length >>= fun place =>
      Walk.pick members (some place)) := by
  have hlength := List.length_pos_iff.2 hmembers
  -- the label stands at one place in both sessions, so the turn is the same and moves both alike
  have hturn : k.Takes (· < members.length) (Walk.turn label members.length) := by
    refine of_session (fun s => (s.counters.next label members.length).1)
      (fun s => { s with counters := (s.counters.next label members.length).2 })
      fun s t halike => ?_
    obtain ⟨hposition, hafter⟩ := h s t halike
    have hnext : ∀ c : Counters,
        (c.next label members.length).1 = c.position label % members.length := fun c => by
      rw [Counters.next, if_neg (by omega)]
    refine ⟨?_, ?_, hafter⟩
    · rw [hnext]
      exact Nat.mod_lt _ hlength
    · rw [hnext, hnext, hposition]
  exact hturn.bind fun place hplace => pick (.inr ⟨place, rfl, hplace⟩)

end Takes

/-- Two replies that are alike are both values or both errors. -/
theorem Replies.elim {p : α → Prop} {mine yours : Except WalkError α × Session}
    (h : k.Replies p mine yours) :
    (∃ a s t, mine = (.ok a, s) ∧ yours = (.ok a, t) ∧ p a ∧ k.alike s t) ∨
      ∃ error s t, mine = (.error error, s) ∧ yours = (.error error, t) ∧ k.allowed error ∧
        k.alike s t := by
  rcases h with ⟨ha, halike⟩ | ⟨hallowed, halike⟩
  · exact .inl ⟨_, _, _, rfl, rfl, ha, halike⟩
  · exact .inr ⟨_, _, _, rfl, rfl, hallowed, halike⟩

/-! ### Runs -/

namespace Runs

variable {settled between : Scope → Prop} {run other : Run}

/-- A run that settles so settles under a weaker condition. -/
theorem mono (h : k.Runs between run other) (hsettled : ∀ after, between after → settled after) :
    k.Runs settled run other := by
  induction h with
  | done halike => exact .done halike
  | fail hallowed halike => exact .fail hallowed halike
  | yield hbranch halike _ ih => exact .yield (hsettled _ hbranch) halike ih

/-- Runs that go on with branches that are alike. -/
theorem append (h : k.Runs settled run other) {next next' : Branches}
    (hnext : ∀ s t, k.alike s t → k.Runs settled (next s) (next' t)) :
    k.Runs settled (run.append next) (other.append next') := by
  induction h with
  | done halike => exact hnext _ _ halike
  | fail hallowed halike => exact .fail hallowed halike
  | yield hbranch halike _ ih => exact .yield hbranch halike ih

/-- Runs whose every branch leads to branches that are alike. -/
theorem bind (h : k.Runs between run other) {f : Branch → Branches}
    (hf : ∀ branch, between branch.scope → k.Yields settled (f branch)) :
    k.Runs settled (run.bind f) (other.bind f) := by
  induction h with
  | done halike => exact .done halike
  | fail hallowed halike => exact .fail hallowed halike
  | yield hbranch halike _ ih => exact (hf _ hbranch _ _ halike).append ih

/-- Leaving out texts that were there: both sides have the same texts. -/
theorem distinct (h : k.Runs settled run other) (seen : List Text) :
    k.Runs settled (run.distinct seen) (other.distinct seen) := by
  induction h generalizing seen with
  | done halike => exact .done halike
  | fail hallowed halike => exact .fail hallowed halike
  | yield hbranch halike _ ih =>
    rw [Run.distinct, Run.distinct]
    split
    · exact ih _ _ halike seen
    · exact .yield hbranch halike fun s t halike => ih s t halike _

/-- The first different texts are the same, or the error is. -/
theorem distinctTexts (h : k.Runs settled run other) (limit : Option Nat) (seen : List Text) :
    k.Replies (fun _ => True) (run.distinctTexts limit seen) (other.distinctTexts limit seen) := by
  induction h generalizing seen with
  | done halike => exact .ok trivial halike
  | fail hallowed halike => exact .error hallowed halike
  | @yield branch _ _ _ _ _ halike _ ih =>
    simp only [Run.distinctTexts]
    generalize (if branch.text ∈ seen then seen else branch.text :: seen) = seen'
    split
    · exact .ok trivial halike
    · exact ih _ _ halike seen'

end Runs

namespace Yields

variable {settled between : Scope → Prop} {branches : Branches}

/-- Branches that settle so settle under a weaker condition. -/
theorem mono (h : k.Yields between branches) (hsettled : ∀ after, between after → settled after) :
    k.Yields settled branches := fun s t halike => (h s t halike).mono hsettled

/-- One branch. -/
theorem single {branch : Branch} (h : settled branch.scope) :
    k.Yields settled (Branches.single branch) :=
  fun _ _ halike => .yield h halike fun _ _ halike => .done halike

/-- Going on from one branch, which is different from all others. -/
theorem one {branch : Branch} {f : Branch → Branches} (h : k.Yields settled (f branch)) :
    k.Yields settled ((Branches.single branch).distinct.bind f) :=
  fun s t halike => (h s t halike).append fun _ _ halike => .done halike

/-- An error that is allowed. -/
theorem fail {error : WalkError} (h : k.allowed error) : k.Yields settled (Branches.fail error) :=
  fun _ _ halike => .fail h halike

/-- For each branch the branches that it leads to. -/
theorem bind (h : k.Yields between branches) {f : Branch → Branches}
    (hf : ∀ branch, between branch.scope → k.Yields settled (f branch)) :
    k.Yields settled (branches.bind f) := fun s t halike => (h s t halike).bind hf

/-- Each branch changed. -/
theorem map (h : k.Yields between branches) {f : Branch → Branch}
    (hf : ∀ branch, between branch.scope → settled (f branch).scope) :
    k.Yields settled (branches.map f) := by
  rw [← Branches.bind_single]
  exact h.bind fun branch hbranch => single (hf branch hbranch)

/-- Branches whose text did not come before. -/
theorem distinct (h : k.Yields settled branches) : k.Yields settled branches.distinct :=
  fun s t halike => (h s t halike).distinct []

/-- Members one after another, by induction on their list. -/
theorem forEach {members : List α} {f : α → Branches} (h : ∀ a ∈ members, k.Yields settled (f a)) :
    k.Yields settled (Branches.forEach f members) := by
  induction members with
  | nil => exact fun _ _ halike => .done halike
  | cons a members ih =>
    obtain ⟨ha, hmembers⟩ := List.forall_mem_cons.1 h
    exact fun s t halike => (ha s t halike).append (ih hmembers)

/-- What the session answers, and what follows. -/
theorem ofSession {p : α → Prop} {action : Session → Except WalkError α × Session}
    (h : k.Answers p action) {f : α → Branches} (hf : ∀ a, p a → k.Yields settled (f a)) :
    k.Yields settled (Branches.ofSession action f) := by
  intro s t halike
  have hreplies := h s t halike
  unfold Branches.ofSession
  revert hreplies
  generalize action s = mine, action t = yours
  rintro (⟨ha, halike⟩ | ⟨hallowed, halike⟩)
  · exact hf _ ha _ _ halike
  · exact .fail hallowed halike

/-- The one branch of a walk. -/
theorem walkBranch {render : Renderer} {command : Command} {method : Sampling} {scope : Scope}
    {ambient : Text} (h : k.Walks (fun _ => settled) scope (render command method ambient)) :
    k.Yields settled (PromptTemplate.walkBranch render command method scope ambient) := by
  intro s t halike
  have hends := h s t halike
  unfold PromptTemplate.walkBranch
  revert hends
  generalize render command method ambient ⟨scope, s⟩ = mine,
    render command method ambient ⟨scope, t⟩ = yours
  rintro (⟨hsettled, -, halike⟩ | ⟨hallowed, halike⟩)
  · exact .yield hsettled halike fun _ _ halike => .done halike
  · exact .fail hallowed halike

end Yields

end Likeness

/-! ## 2. Comparisons -/

/-- What is rendered is in reach in this manner, and names stand for what they may stand for. -/
def Contract.reaching (r : Reach) (manner : Manner) : Contract where
  admits commands scope := (∀ command ∈ commands, r.visits manner command) ∧ scope.Keeps r.keeps
  reads name := ∀ value, r.keeps name value → r.visits manner value
  defers name value scope := r.keeps name value ∧ scope.Keeps r.keeps
  settles _ _ after := after.Keeps r.keeps
  sub h hsub := ⟨fun command hmem => h.1 command (hsub.subset hmem), h.2⟩
  tail h hfirst := ⟨fun command hmem => h.1 command (List.mem_cons_of_mem _ hmem), hfirst⟩
  binding h hreads hlookup :=
    ⟨List.forall_mem_singleton.2 (hreads _ (h.2 _ _ hlookup _ (.value _ _))),
      h.2.resolving (h.2 _ _ hlookup)⟩
  refl h := h.2
  cons _ hrest := hrest
  node h _ := h
  evaluate h := h.bind nofun
  defer h := h.2.bind fun _ hvalue => by
    rcases hvalue.deferred_cases with rfl | ⟨binding, hlookup, hvalue⟩
    · exact h.1
    · exact h.2 _ binding hlookup _ hvalue

/-- A node in reach may do all that it does. -/
theorem Contract.reaching_enters {r : Reach} {manner : Manner} {command : Command} {scope : Scope}
    (h : (reaching r manner).admits [command] scope) :
    (reaching r manner).Enters command scope where
  rendered := ⟨fun _ => r.rendered (h.1 command (List.mem_singleton_self _)), h.2⟩
  names _ hname _ := r.read (h.1 command (List.mem_singleton_self _)) hname
  deferred _ _ _ hcommand :=
    ⟨r.deferred (hcommand ▸ h.1 command (List.mem_singleton_self _)), h.2⟩

namespace Likeness

section Comparisons

variable (k : Likeness) (hunknown : ∀ name, k.allowed (.unknownVariable name))

/-- Walks compared with themselves from alike sessions. -/
def walking : Comparison Unit where
  holds settled scope _ walk := k.Walks (fun _ => settled) scope (walk ())
  mono h hsettled := h.mono fun _ => hsettled
  congr h hsame s t halike := by
    rw [hsame () _ (.refl _), hsame () _ (.refl _)]
    exact h s t halike
  pure hsettled _ := .pure hsettled
  bindName hsettled := fun _ _ halike => .ok hsettled rfl halike
  unknown name := .fail (hunknown name)
  bind h hnext := h.bind fun text after hafter => hnext ⟨text, after⟩ hafter
  within h hsettled := h.within fun _ _ _ => hsettled

/-- Branches compared with themselves from alike sessions. -/
def branching : Comparison Unit where
  holds settled _ branches _ := k.Yields settled branches
  mono h hsettled := h.mono hsettled
  congr h _ := h
  pure hsettled _ := .single hsettled
  bindName hsettled := .single hsettled
  unknown name := .fail (hunknown name)
  bind h hnext := h.bind hnext
  within h hsettled := h.map fun _ _ => hsettled

end Comparisons

end Likeness

end PromptTemplate
