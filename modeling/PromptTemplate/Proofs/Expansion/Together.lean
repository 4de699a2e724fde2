/-
`Together.lean` -- two walks side by side.

Two walks from two scopes go together if from one session they end alike: with the same value, or
with the same error, and in one session again; what is known of the scopes that they leave is up
to the statement. Only a walk that comes to its depth limit leaves it open how the other one ends,
because the other may be allowed to go deeper. Two runs go together if they yield the same texts,
one by one, whatever session both are resumed with. What passes from the parts of a walk or a run
to the whole is one lemma for each way of putting them together; nothing here looks at nodes.
-/
import PromptTemplate.Proofs.Expansion.Candidates
import PromptTemplate.Proofs.Expansion.Following

set_option autoImplicit false

namespace PromptTemplate

namespace Together

variable {α β : Type} {known : Session → Prop}

/-! ## 1. Walks -/

/-- Two ends of walks. -/
inductive Ends (known : Session → Prop) (post : α → Scope → Scope → Prop)
    (mine yours : List Frame) :
    Except WalkError α × Walking → Except WalkError α × Walking → Prop
  | ok {value : α} {a b : Scope} {s : Session} (hpost : post value a b) (hmine : a.parents = mine)
      (hyours : b.parents = yours) (hs : known s) :
    Ends known post mine yours (.ok value, ⟨a, s⟩) (.ok value, ⟨b, s⟩)
  | error {error : WalkError} {a b : Scope} {s : Session} (hs : known s) :
    Ends known post mine yours (.error error, ⟨a, s⟩) (.error error, ⟨b, s⟩)
  | tooDeep {w : Walking} {other : Except WalkError α × Walking} :
    Ends known post mine yours (.error .tooDeep, w) other

/-- From the two scopes and one session the walks end alike. -/
def Walks (known : Session → Prop) (post : α → Scope → Scope → Prop) (a b : Scope)
    (mine yours : Walk α) : Prop :=
  ∀ s, known s → Ends known post a.parents b.parents (mine ⟨a, s⟩) (yours ⟨b, s⟩)

/-- The action comes to a value of this kind, the same from every scope, and leaves the scope
alone. -/
def Takes (known : Session → Prop) (p : α → Prop) (selection : Walk α) : Prop :=
  ∀ a b, Walks known (fun value after after' => p value ∧ after = a ∧ after' = b) a b selection
    selection

namespace Walks

variable {post between : α → Scope → Scope → Prop} {a b : Scope} {mine yours : Walk α}

/-- Two walks that end alike end alike under a weaker condition. -/
theorem mono (h : Walks known between a b mine yours)
    (hpost : ∀ value a' b', between value a' b' → post value a' b') :
    Walks known post a b mine yours := by
  intro s hs
  have hends := h s hs
  revert hends
  generalize mine ⟨a, s⟩ = first, yours ⟨b, s⟩ = second
  rintro (⟨hbetween, hmine, hyours, hs⟩ | hs | _)
  · exact .ok (hpost _ _ _ hbetween) hmine hyours hs
  · exact .error hs
  · exact .tooDeep

/-- A value that is given at once. -/
theorem pure {value : α} (hpost : post value a b) :
    Walks known post a b (Pure.pure value) (Pure.pure value) := fun _ hs => .ok hpost rfl rfl hs

/-- The same error on both sides. -/
theorem fail (error : WalkError) :
    Walks known post a b (Walk.fail error : Walk α) (Walk.fail error) := fun _ hs => .error hs

/-- What went too deep may be anything on the other side. -/
theorem tooDeep : Walks known post a b (Walk.fail .tooDeep : Walk α) yours := fun _ _ => .tooDeep

/-- Steps one after another, if each ends alike. -/
theorem bind (h : Walks known between a b mine yours) {later : β → Scope → Scope → Prop}
    {next next' : α → Walk β}
    (hnext : ∀ value a' b', between value a' b' →
      Walks known later a' b' (next value) (next' value)) :
    Walks known later a b (mine >>= next) (yours >>= next') := by
  intro s hs
  have hends := h s hs
  rw [Walk.bind_apply, Walk.bind_apply]
  revert hends
  generalize mine ⟨a, s⟩ = first, yours ⟨b, s⟩ = second
  rintro (⟨hbetween, hmine, hyours, hs⟩ | hs | _)
  · -- both go on inside of the frames in which they began
    rw [← hmine, ← hyours]
    exact hnext _ _ _ hbetween _ hs
  · exact .error hs
  · exact .tooDeep

/-- Walks that begin with looking up a name. -/
theorem lookup {name : Text} {next next' : Option Binding → Walk α}
    (h : Walks known post a b (next (a.lookup name)) (next' (b.lookup name))) :
    Walks known post a b (Walk.lookup name >>= next) (Walk.lookup name >>= next') := h

/-- Walks that end with the same binding of a name, or with bindings that belong together. -/
theorem bindName {post : Text → Scope → Scope → Prop} {name : Text} {mine yours : Binding}
    (hpost : post [] (a.bind name mine) (b.bind name yours)) :
    Walks known post a b (Walk.bindName name mine >>= fun _ => Pure.pure [])
      (Walk.bindName name yours >>= fun _ => Pure.pure []) := fun _ hs => .ok hpost rfl rfl hs

/-- Walks that begin with the same selection. -/
theorem take {p : α → Prop} {selection : Walk α} (h : Takes known p selection)
    {later : β → Scope → Scope → Prop} {next next' : α → Walk β}
    (hnext : ∀ value, p value → Walks known later a b (next value) (next' value)) :
    Walks known later a b (selection >>= next) (selection >>= next') :=
  (h a b).bind fun value _ _ ⟨hvalue, ha, hb⟩ => ha ▸ hb ▸ hnext value hvalue

/-- Walks in frames of their own leave the scopes around them. -/
theorem within {frame frame' : Frame}
    (h : Walks known between (a.push frame) (b.push frame') mine yours)
    (hpost : ∀ value a' b', between value a' b' → post value a b) :
    Walks known post a b (Walk.within frame mine) (Walk.within frame' yours) := by
  intro s hs
  have hends := h s hs
  unfold Walk.within
  revert hends
  dsimp only
  generalize mine ⟨a.push frame, s⟩ = first, yours ⟨b.push frame', s⟩ = second
  rintro (⟨hbetween, hmine, hyours, hs⟩ | hs | _)
  · dsimp only
    rw [Scope.pop_of_parents_push hmine, Scope.pop_of_parents_push hyours]
    exact .ok (hpost _ _ _ hbetween) rfl rfl hs
  · exact .error hs
  · exact .tooDeep

end Walks

namespace Takes

variable {p q : α → Prop} {selection : Walk α}

/-- A selection of such values is one under a weaker condition. -/
theorem mono (h : Takes known q selection) (hpq : ∀ value, q value → p value) :
    Takes known p selection :=
  fun a b => (h a b).mono fun value _ _ hvalue => ⟨hpq value hvalue.1, hvalue.2⟩

/-- A value that is selected at once. -/
theorem pure {value : α} (hvalue : p value) : Takes known p (Pure.pure value) :=
  fun _ _ => .pure ⟨hvalue, rfl, rfl⟩

/-- A selection that goes on by another one. -/
theorem bind (h : Takes known q selection) {r : β → Prop} {next : α → Walk β}
    (hnext : ∀ value, q value → Takes known r (next value)) : Takes known r (selection >>= next) :=
  fun a b => .take h fun value hvalue => hnext value hvalue a b

/-- What the session answers. -/
theorem ofSession (action : Session → Except WalkError α × Session)
    (h : ∀ s, known s → known (action s).2 ∧ ∀ value, (action s).1 = .ok value → p value) :
    Takes known p (Walk.ofSession action) := by
  intro a b s hs
  have hsession := h s hs
  unfold Walk.ofSession
  revert hsession
  dsimp only
  rcases action s with ⟨result, after⟩
  rintro ⟨hafter, hvalue⟩
  cases result with
  | ok value => exact .ok ⟨hvalue value rfl, rfl, rfl⟩ rfl rfl hafter
  | error error => exact .error hafter

/-- The member at an index, if there is one. -/
theorem pick (members : List α) (index : Option Nat) :
    Takes known (· ∈ members) (Walk.pick members index) := by
  intro a b
  unfold Walk.pick
  split
  · next member hpicked =>
    obtain ⟨place, -, hplace⟩ := Option.bind_eq_some_iff.1 hpicked
    exact .pure ⟨List.mem_of_getElem? hplace, rfl, rfl⟩
  · exact .fail .drawOutOfRange

end Takes

section Selections

variable {g : Grammar} {tree : Text → Except WalkError Command}

/-! ### Selections -/

/-- A whole number that is drawn. -/
theorem Takes.drawInt (env : Environment) (least most : Nat) :
    Takes (Session.Reads g tree) (fun _ => True) (Walk.drawInt env least most) :=
  Takes.ofSession (fun s =>
    let taken := randomInt env.round env.source s.drawn (.ofNat least) (.ofNat most)
    (.ok taken.1, { s with drawn := taken.2 })) fun _ hs => ⟨hs, fun _ _ => trivial⟩

/-- An option by weight. -/
theorem Takes.drawWeighted (env : Environment) (weights : List Rat) :
    Takes (Session.Reads g tree) (fun _ => True) (Walk.drawWeighted env weights) :=
  Takes.ofSession (fun s =>
    let taken := weightedIndex env.round env.source s.drawn (weights.map .finite)
    (.ok taken.1, { s with drawn := taken.2 })) fun _ hs => ⟨hs, fun _ _ => trivial⟩

/-- A rotation. -/
theorem Takes.turn (label : Label) (size : Nat) :
    Takes (Session.Reads g tree) (fun _ => True) (Walk.turn label size) :=
  Takes.ofSession (fun s =>
    let taken := s.counters.next label size
    (.ok taken.1, { s with counters := taken.2 })) fun _ hs => ⟨hs, fun _ _ => trivial⟩

/-- A draw. -/
theorem Takes.draw (env : Environment) :
    Takes (Session.Reads g tree) (fun _ => True) (Walk.draw env) :=
  Takes.ofSession (fun s =>
    (.ok (env.source s.drawn), { s with drawn := s.drawn + 1 })) fun _ hs =>
      ⟨hs, fun _ _ => trivial⟩

/-- Whether a part is included. -/
theorem Takes.isIncluded (env : Environment) (label : Label) (chance : Rat) (method : Sampling) :
    Takes (Session.Reads g tree) (fun _ =>
      True) (PromptTemplate.isIncluded env label chance method) := by
  unfold PromptTemplate.isIncluded
  split
  · exact (draw env).bind fun _ _ => .pure trivial
  · exact (turn label _).bind fun _ _ => (pick _ _).mono fun _ _ => trivial

/-- The index of a candidate. -/
theorem Takes.candidateIndex (env : Environment) (label : Label) (method : Sampling) (size : Nat) :
    Takes (Session.Reads g tree) (fun _ => True)
      (PromptTemplate.candidateIndex env label method size) := by
  unfold PromptTemplate.candidateIndex
  split
  · exact (draw env).bind fun _ _ => .pure trivial
  · exact (turn label size).bind fun _ _ => .pure trivial

/-- Asking for candidates keeps the table right, and finds what the values read as. -/
theorem asks (env : Environment) (tree : Text → Except WalkError Command) (name : Text)
    (method : Sampling) (s : Session) (hs : s.Reads env.grammar tree) :
    (Session.wildcardCandidates env name method s).2.Reads env.grammar tree ∧
      ∀ found, (Session.wildcardCandidates env name method s).1 = .ok found →
        wildcardTrees env tree name method = .ok found := by
  obtain ⟨hanswer, hafter⟩ := hs.wildcardCandidates env name method
  exact ⟨hafter, fun found hfound => hanswer ▸ hfound⟩

end Selections

/-- Changing the members first is changing the one that is picked. -/
theorem pick_map (f : α → β) (members : List α) (index : Option Nat) :
    Walk.pick (members.map f) index = Walk.pick members index >>= fun member =>
      Pure.pure (f member) := by
  unfold Walk.pick
  cases index with
  | none => rfl
  | some place =>
    rw [Option.bind_some, Option.bind_some, List.getElem?_map]
    cases members[place]? <;> rfl

/-! ## 2. Runs -/

/-- Two branches with one text. -/
structure Match (settled : Scope → Scope → Prop) (mine yours : Branch) : Prop where
  text : mine.text = yours.text
  scope : settled mine.scope yours.scope

/-- Two runs with the same texts and the same end, whatever session both are resumed with. -/
inductive Runs (known : Session → Prop) (settled : Scope → Scope → Prop) : Run → Run → Prop
  | done {s : Session} (hs : known s) : Runs known settled (.done s) (.done s)
  | fail {error : WalkError} {s : Session} (hs : known s) :
    Runs known settled (.fail error s) (.fail error s)
  | tooDeep {s : Session} {other : Run} : Runs known settled (.fail .tooDeep s) other
  | yield {text : Text} {a b : Scope} {s : Session} {rest other : Branches} (hsettled : settled a b)
      (hs : known s) (hrest : ∀ s, known s → Runs known settled (rest s) (other s)) :
    Runs known settled (.yield ⟨text, a⟩ s rest) (.yield ⟨text, b⟩ s other)

/-- From one session the runs go together. -/
def Yields (known : Session → Prop) (settled : Scope → Scope → Prop) (mine yours : Branches) :
    Prop :=
  ∀ s, known s → Runs known settled (mine s) (yours s)

namespace Runs

variable {settled between : Scope → Scope → Prop} {run other : Run}

/-- Two runs that are alike are so under a weaker condition. -/
theorem mono (h : Runs known between run other) (hsettled : ∀ a b, between a b → settled a b) :
    Runs known settled run other := by
  induction h with
  | done hs => exact .done hs
  | fail hs => exact .fail hs
  | tooDeep => exact .tooDeep
  | yield hbranch hs _ ih => exact .yield (hsettled _ _ hbranch) hs ih

/-- Runs that go on with branches that are alike. -/
theorem append (h : Runs known settled run other) {next next' : Branches}
    (hnext : Yields known settled next next') :
    Runs known settled (run.append next) (other.append next') := by
  induction h with
  | done hs => exact hnext _ hs
  | fail hs => exact .fail hs
  | tooDeep => exact .tooDeep
  | yield hbranch hs _ ih => exact .yield hbranch hs ih

/-- Runs whose every pair of branches leads to branches that are alike. -/
theorem bind (h : Runs known between run other) {f g : Branch → Branches}
    (hf : ∀ text a b, between a b → Yields known settled (f ⟨text, a⟩) (g ⟨text, b⟩)) :
    Runs known settled (run.bind f) (other.bind g) := by
  induction h with
  | done hs => exact .done hs
  | fail hs => exact .fail hs
  | tooDeep => exact .tooDeep
  | yield hbranch hs _ ih => exact (hf _ _ _ hbranch _ hs).append ih

/-- Leaving out texts that were there: both sides have the same texts. -/
theorem distinct (h : Runs known settled run other) (seen : List Text) :
    Runs known settled (run.distinct seen) (other.distinct seen) := by
  induction h generalizing seen with
  | done hs => exact .done hs
  | fail hs => exact .fail hs
  | tooDeep => exact .tooDeep
  | yield hbranch hs _ ih =>
    rw [Run.distinct, Run.distinct]
    split
    · exact ih _ hs seen
    · exact .yield hbranch hs fun s hs => ih s hs _

end Runs

namespace Yields

variable {settled between : Scope → Scope → Prop} {mine yours : Branches}

/-- Branches that are alike are so under a weaker condition. -/
theorem mono (h : Yields known between mine yours) (hsettled : ∀ a b, between a b → settled a b) :
    Yields known settled mine yours := fun s hs => (h s hs).mono hsettled

/-- One branch on both sides. -/
theorem single {first second : Branch} (h : Match settled first second) :
    Yields known settled (.single first) (.single second) := by
  obtain ⟨text, a⟩ := first
  obtain ⟨other, b⟩ := second
  obtain ⟨rfl, hsettled⟩ := h
  exact fun _ hs => .yield hsettled hs fun _ hs => .done hs

/-- The same error on both sides. -/
theorem fail (error : WalkError) : Yields known settled (.fail error) (.fail error) :=
  fun _ hs => .fail hs

/-- What went too deep may be anything on the other side. -/
theorem tooDeep : Yields known settled (.fail .tooDeep) yours := fun _ _ => .tooDeep

/-- For every pair of branches the branches that they lead to. -/
theorem bind (h : Yields known between mine yours) {f g : Branch → Branches}
    (hf : ∀ text a b, between a b → Yields known settled (f ⟨text, a⟩) (g ⟨text, b⟩)) :
    Yields known settled (mine.bind f) (yours.bind g) := fun s hs => (h s hs).bind hf

/-- Each branch changed on both sides. -/
theorem map (h : Yields known between mine yours) {f g : Branch → Branch}
    (hparts : ∀ text a b, between a b → Match settled (f ⟨text, a⟩) (g ⟨text, b⟩)) :
    Yields known settled (mine.map f) (yours.map g) := by
  rw [← Branches.bind_single, ← Branches.bind_single]
  exact h.bind fun text a b hbetween => single (hparts text a b hbetween)

/-- Branches whose text did not come before. -/
theorem distinct (h : Yields known settled mine yours) :
    Yields known settled mine.distinct yours.distinct := fun s hs => (h s hs).distinct []

/-- Members one after another, by induction on their list. -/
theorem forEach {members : List α} {f g : α → Branches}
    (h : ∀ member ∈ members, Yields known settled (f member) (g member)) :
    Yields known settled (Branches.forEach f members) (Branches.forEach g members) := by
  induction members with
  | nil => exact fun _ hs => .done hs
  | cons member members ih =>
    obtain ⟨hfirst, hrest⟩ := List.forall_mem_cons.1 h
    exact fun s hs => (hfirst s hs).append (ih hrest)

/-- What is asked of the session is the same on both sides, and so is what follows. -/
theorem ofSession {p : α → Prop} {action : Session → Except WalkError α × Session}
    (h : ∀ s, known s → known (action s).2 ∧ ∀ value, (action s).1 = .ok value → p value)
    {f g : α → Branches} (hnext : ∀ value, p value → Yields known settled (f value) (g value)) :
    Yields known settled (Branches.ofSession action f) (Branches.ofSession action g) := by
  intro s hs
  have hsession := h s hs
  unfold Branches.ofSession
  revert hsession
  rcases action s with ⟨result, after⟩
  rintro ⟨hafter, hvalue⟩
  cases result with
  | ok value => exact hnext value (hvalue value rfl) after hafter
  | error error => exact .fail hafter

/-- The one branch of each walk. -/
theorem walkBranch {render render' : Renderer} {command other : Command} {method : Sampling}
    {a b : Scope} {ambient : Text}
    (h : Walks known (fun _ => settled) a b (render command method ambient)
      (render' other method ambient)) :
    Yields known settled (PromptTemplate.walkBranch render command method a ambient)
      (PromptTemplate.walkBranch render' other method b ambient) := by
  intro s hs
  have hends := h s hs
  unfold PromptTemplate.walkBranch
  revert hends
  generalize render command method ambient ⟨a, s⟩ = first,
    render' other method ambient ⟨b, s⟩ = second
  rintro (⟨hsettled, -, -, hs⟩ | hs | _)
  · exact .yield hsettled hs fun _ hs => .done hs
  · exact .fail hs
  · exact .tooDeep

end Yields

/-! ## 3. What comes out -/

/-- Taken up to a limit, branches that go together are the same one by one, and leave one session
with one ending, unless the first ones come to their depth limit. -/
theorem Runs.take {settled : Scope → Scope → Prop} {run other : Run}
    (h : Runs known settled run other) (limit : Option Nat)
    (hends : (run.take limit).2.1 ≠ .failed .tooDeep) :
    List.Forall₂ (Match settled) (run.take limit).1 (other.take limit).1 ∧
      (run.take limit).2 = (other.take limit).2 := by
  induction h generalizing limit with
  | done hs => exact ⟨.nil, rfl⟩
  | fail hs => exact ⟨.nil, rfl⟩
  | tooDeep => exact absurd rfl hends
  | yield hsettled hs _ ih =>
    simp only [Run.take] at hends ⊢
    split
    · exact ⟨.cons ⟨rfl, hsettled⟩ .nil, rfl⟩
    · next hleft =>
      rw [if_neg hleft] at hends
      obtain ⟨hbranches, hsame⟩ := ih _ hs (limit.map (· - 1)) hends
      exact ⟨.cons ⟨rfl, hsettled⟩ hbranches, hsame⟩

/-- As many branches of both sides match, unless the first went too deep. -/
theorem Yields.take {settled : Scope → Scope → Prop} {mine yours : Branches}
    (h : Yields known settled mine yours) (limit : Option Nat) {s : Session} (hs : known s)
    (hends : (mine.take limit s).2.1 ≠ .failed .tooDeep) :
    List.Forall₂ (Match settled) (mine.take limit s).1 (yours.take limit s).1 ∧
      (mine.take limit s).2 = (yours.take limit s).2 := by
  unfold Branches.take at hends ⊢
  split
  · exact ⟨.nil, rfl⟩
  · next hlimit =>
    rw [if_neg hlimit] at hends
    exact (h s hs).take limit hends

end Together

end PromptTemplate
