/-
`Deepening.lean` -- a higher depth limit changes only what comes to the lower one.

How deep rendering may go into itself bounds what a walk or an enumeration can do, and tells in no
other way: where the lower limit is not come to, a higher one gives the same value or error, the
same scope and the same session, and the same branches whatever sessions they are resumed with.
Every rule of a node passes this on from its parts, so it is proved rule by rule, with the depth as
the only induction.
-/
import PromptTemplate.Proofs.Expansion.Choosing
import PromptTemplate.Proofs.Expansion.Pairing

set_option autoImplicit false

namespace PromptTemplate

/-! ## 1. Walks -/

namespace Walk

variable {α β : Type} {mine yours : Walk α}

/-- The second walk ends as the first one does, wherever that does not come to its depth limit. -/
def DeepenedBy (mine yours : Walk α) : Prop :=
  ∀ w, (mine w).1 ≠ .error .tooDeep → yours w = mine w

namespace DeepenedBy

/-- A walk is as deep as itself. -/
theorem refl (walk : Walk α) : walk.DeepenedBy walk := fun _ _ => rfl

/-- A walk that went too deep may become anything. -/
theorem tooDeep (yours : Walk α) : (Walk.fail .tooDeep : Walk α).DeepenedBy yours :=
  fun _ hends => absurd rfl hends

/-- Deeper than what is deeper is deeper. -/
theorem trans {theirs : Walk α} (h : mine.DeepenedBy yours) (h' : yours.DeepenedBy theirs) :
    mine.DeepenedBy theirs := by
  intro w hends
  have hsame := h w hends
  rw [← hsame] at hends
  exact (h' w hends).trans hsame

/-- Steps one after another are deeper if each is. -/
theorem bind (h : mine.DeepenedBy yours) {next next' : α → Walk β}
    (hnext : ∀ a, (next a).DeepenedBy (next' a)) :
    (mine >>= next).DeepenedBy (yours >>= next') := by
  intro w hends
  -- the whole walk ended, so its first part did: only then does the
  -- hypothesis say anything about it
  have hfirst : (mine w).1 ≠ .error .tooDeep := by
    intro herror
    refine hends ?_
    rw [bind_apply, ← Prod.eta (mine w), herror]
  rw [bind_apply] at hends
  rw [bind_apply, bind_apply, h w hfirst]
  revert hends
  rcases mine w with ⟨result, after⟩
  intro hends
  cases result with
  | ok a => exact hnext a after hends
  | error error => rfl

/-- A frame around a walk does not change how deep it goes. -/
theorem within (h : mine.DeepenedBy yours) (frame : Frame) :
    (Walk.within frame mine).DeepenedBy (Walk.within frame yours) := by
  intro w hends
  unfold Walk.within at hends ⊢
  dsimp only at hends ⊢
  rw [h _ hends]

end DeepenedBy

end Walk

/-- Every node is rendered as by the first renderer, wherever that does not come to its limit. -/
def Renderer.DeepenedBy (mine yours : Renderer) : Prop :=
  ∀ (command : Command) (method : Sampling) (ambient : Text),
    (mine command method ambient).DeepenedBy (yours command method ambient)

section Walks

open Walk.DeepenedBy

variable {env : Environment} {mine yours : Renderer} (h : mine.DeepenedBy yours)
include h

/-- The induction is on the nodes; each of them is deeper. -/
theorem renderSequence_deepened (method : Sampling) (children : List Command) (ambient : Text) :
    (renderSequence mine method children ambient).DeepenedBy
      (renderSequence yours method children ambient) := by
  induction children generalizing ambient with
  | nil => exact refl _
  | cons child children ih =>
    exact (h child method ambient).bind fun first => (ih _).bind fun rest => refl _

/-- The same for several values, whose texts are kept apart. -/
theorem renderEach_deepened (method : Sampling) (ambient : Text) (values : List Command) :
    (renderEach mine method ambient values).DeepenedBy
      (renderEach yours method ambient values) := by
  induction values with
  | nil => exact refl _
  | cons value values ih =>
    exact (h value method ambient).bind fun first => ih.bind fun rest => refl _

/-- A loop of draws, by induction on how often it runs. -/
theorem renderDrawn_deepened (options : List (Weighted Command)) (ambient : Text) (count : Nat) :
    (renderDrawn env mine options ambient count).DeepenedBy
      (renderDrawn env yours options ambient count) := by
  induction count with
  | zero => exact refl _
  | succ count ih =>
    refine (refl _).bind fun index => (refl _).bind fun option => ?_
    exact (h option.value _ ambient).bind fun first => ih.bind fun rest => refl _

/-- A variant rotates or draws the same options, and these are rendered deeper. -/
theorem renderVariant_deepened (label : Label) (options : List (Weighted Command))
    (least most : Nat) (separator : Text) (method : Sampling) (ambient : Text) :
    (renderVariant env mine label options least most separator method ambient).DeepenedBy
      (renderVariant env yours label options least most separator method ambient) := by
  unfold renderVariant
  dsimp only
  split
  · split
    · exact refl _
    · refine (refl _).bind fun count => ?_
      exact (renderDrawn_deepened h options ambient _).bind fun parts => refl _
  · split
    · exact refl _
    · refine (refl _).bind fun place => (refl _).bind fun choice => ?_
      exact (renderEach_deepened h method ambient _).bind fun parts => refl _

/-- The command of a binding is rendered deeper. -/
theorem renderBinding_deepened (method : Sampling) (ambient name : Text) :
    (renderBinding mine method ambient name).DeepenedBy
      (renderBinding yours method ambient name) := by
  refine (refl _).bind fun binding => ?_
  match binding with
  | none => exact refl _
  | some (.evaluated text) => exact refl _
  | some (.deferred command previous) =>
    exact ((h command method ambient).within _).bind fun text => refl _

/-- So is the binding that a condition looks at. -/
theorem renderTarget_deepened (method : Sampling) (ambient : Text) (key : Option Text) :
    (renderTarget mine method ambient key).DeepenedBy (renderTarget yours method ambient key) := by
  cases key with
  | none => exact refl _
  | some key => exact (renderBinding_deepened h method ambient key).bind fun text => refl _

/-- So is the name of a wildcard, and then the candidate that is picked. -/
theorem renderWildcard_deepened (label : Label) (name : WildcardName Command)
    (inlined : List (Text × Command)) (sampling : Option Sampling) (method : Sampling)
    (ambient : Text) :
    (renderWildcard env mine label name inlined sampling method ambient).DeepenedBy
      (renderWildcard env yours label name inlined sampling method ambient) := by
  have hname : (renderName mine method ambient name).DeepenedBy
      (renderName yours method ambient name) := by
    cases name with
    | fixed name => exact refl _
    | rendered command => exact h command method ambient
  refine hname.bind fun name => (refl _).bind fun candidates => ?_
  split
  · exact refl _
  · refine (refl _).bind fun index => (refl _).bind fun candidate => ?_
    -- the frame is read off the scope in which the candidate is rendered
    exact fun w => (h candidate _ ambient).within (inlineFrame w.scope inlined) w

/-- So is a part that is included. -/
theorem renderProbability_deepened (label : Label) (chance : Rat) (value : Command)
    (method : Sampling) (ambient : Text) :
    (renderProbability env mine label chance value method ambient).DeepenedBy
      (renderProbability env yours label chance value method ambient) := by
  refine (refl _).bind fun included => ?_
  cases included with
  | true => exact h value method ambient
  | false => exact refl _

/-- So are the values of a condition, behind targets that are. -/
theorem renderCondition_deepened (method : Sampling) (ambient : Text) (otherwise : Command)
    (branches : List (Guarded Command)) :
    (renderCondition mine method ambient otherwise branches).DeepenedBy
      (renderCondition yours method ambient otherwise branches) := by
  induction branches with
  | nil => exact h otherwise method ambient
  | cons branch branches ih =>
    refine (renderTarget_deepened h method ambient _).bind fun target => ?_
    by_cases htest : branch.guard.pattern.test target = true
    · simp only [if_pos htest]
      exact h branch.value method ambient
    · simp only [if_neg htest]
      exact ih

/-- So is what a variable stands for, or its default. -/
theorem renderAccess_deepened (method : Sampling) (ambient name : Text)
    (fallback : Option Command) :
    (renderAccess mine method ambient name fallback).DeepenedBy
      (renderAccess yours method ambient name fallback) := by
  refine (renderBinding_deepened h method ambient name).bind fun text => ?_
  match text, fallback with
  | some text, _ => exact refl _
  | none, some command => exact h command method ambient
  | none, none => exact refl _

/-- So is the value of an assignment, if it is rendered at once. -/
theorem renderAssignment_deepened (method : Sampling) (ambient name : Text) (value : Command)
    (overwrite immediate : Bool) :
    (renderAssignment mine method ambient name value overwrite immediate).DeepenedBy
      (renderAssignment yours method ambient name value overwrite immediate) := by
  refine (refl _).bind fun earlier => ?_
  split
  · exact refl _
  · split
    · exact (h value method ambient).bind fun text => refl _
    · exact refl _

/-- Every node is deeper if the nodes in it are. -/
theorem renderNode_deepened : Renderer.DeepenedBy (renderNode env mine) (renderNode env yours) := by
  intro command method ambient
  cases command with
  | literal text => exact refl _
  | comment text => exact refl _
  | sequence children => exact renderSequence_deepened h method children ambient
  | variant label options least most separator sampling =>
    exact renderVariant_deepened h label options least most separator _ ambient
  | wildcard label name inlined sampling =>
    exact renderWildcard_deepened h label name inlined sampling method ambient
  | wrap wrapper inner =>
    refine (h inner method ambient).bind fun inner => ?_
    exact (h wrapper method ambient).bind fun wrapper => refl _
  | probability label chance value sampling =>
    exact renderProbability_deepened h label chance value _ ambient
  | condition branches otherwise =>
    exact renderCondition_deepened h method ambient otherwise branches
  | access name fallback => exact renderAccess_deepened h method ambient name fallback
  | assignment name value overwrite immediate =>
    exact renderAssignment_deepened h method ambient name value overwrite immediate

end Walks

/-- Walks that may go deeper. -/
theorem renderWithin_deepened (env : Environment) {depth deep : Nat} (hdeep : depth ≤ deep) :
    Renderer.DeepenedBy (renderWithin env depth) (renderWithin env deep) := by
  induction depth generalizing deep with
  | zero => exact fun command method ambient => .tooDeep _
  | succ depth ih =>
    obtain ⟨deep, rfl⟩ := Nat.exists_eq_add_one_of_ne_zero (Nat.ne_zero_of_lt hdeep)
    exact renderNode_deepened (ih (Nat.le_of_succ_le_succ hdeep))

/-! ## 2. Branches -/

namespace Branches

/-- The second branches are the first ones, in the same order and with the same end, whatever
sessions both are resumed with; unless the first ones come to their depth limit. -/
def DeepenedBy (mine yours : Branches) : Prop := Together.Yields (fun _ => True) Eq mine yours

namespace DeepenedBy

variable {mine yours : Branches}

/-- Branches are as deep as themselves. -/
theorem refl (branches : Branches) : branches.DeepenedBy branches := by
  intro s _
  induction branches s with
  | done s => exact .done trivial
  | fail error s => exact .fail trivial
  | yield branch s rest ih => exact .yield rfl trivial fun s _ => ih s

/-- Deeper than what is deeper is deeper. -/
theorem trans {theirs : Branches} (h : mine.DeepenedBy yours) (h' : yours.DeepenedBy theirs) :
    mine.DeepenedBy theirs := by
  intro s _
  have hfirst := h s trivial
  have hsecond := h' s trivial
  -- both relations are given at one session; the runs there have to be names for the induction
  revert hfirst hsecond
  generalize mine s = run, yours s = other, theirs s = last
  intro hfirst
  induction hfirst generalizing last with
  | done _ => exact id
  | fail _ => exact id
  | tooDeep => exact fun _ => .tooDeep
  | yield hscope _ _ ih =>
    intro hsecond
    cases hsecond with
    | yield hscope' _ hrest =>
      exact .yield (hscope.trans hscope') trivial fun s _ => ih s trivial _ (hrest s trivial)

/-- What every branch leads to is deeper, so all of it is. -/
theorem bind (h : mine.DeepenedBy yours) {f g : Branch → Branches}
    (hf : ∀ branch, (f branch).DeepenedBy (g branch)) : (mine.bind f).DeepenedBy (yours.bind g) :=
  Together.Yields.bind h fun text a _ hscope => hscope ▸ hf ⟨text, a⟩

/-- Changing the branches does not change how deep they go. -/
theorem map (h : mine.DeepenedBy yours) (f : Branch → Branch) :
    (mine.map f).DeepenedBy (yours.map f) :=
  Together.Yields.map h fun _ _ _ hscope => hscope ▸ ⟨rfl, rfl⟩

/-- Leaving out texts that were there does not either: those up to an error are the same. -/
theorem distinct (h : mine.DeepenedBy yours) : mine.distinct.DeepenedBy yours.distinct :=
  Together.Yields.distinct h

/-- Members one after another, by induction on their list. -/
theorem forEach {α : Type} {f g : α → Branches} (h : ∀ a, (f a).DeepenedBy (g a))
    (members : List α) :
    (Branches.forEach f members).DeepenedBy (Branches.forEach g members) :=
  Together.Yields.forEach fun a _ => h a

/-- The one branch of a walk. -/
theorem walkBranch {render render' : Renderer} (hrender : render.DeepenedBy render')
    (command : Command) (method : Sampling) (scope : Scope) (ambient : Text) :
    (PromptTemplate.walkBranch render command method scope ambient).DeepenedBy
      (PromptTemplate.walkBranch render' command method scope ambient) := by
  intro s _
  have hwalk := hrender command method ambient ⟨scope, s⟩
  unfold PromptTemplate.walkBranch
  by_cases hends : (render command method ambient ⟨scope, s⟩).1 = .error .tooDeep
  · rw [← Prod.eta (render command method ambient ⟨scope, s⟩), hends]
    exact .tooDeep
  · rw [hwalk hends]
    exact refl (PromptTemplate.walkBranch render command method scope ambient) s trivial

/-- A node that is sampled is walked deeper; otherwise its branches are deeper. -/
theorem byMethod {render render' : Renderer} (hrender : render.DeepenedBy render')
    (h : mine.DeepenedBy yours) (command : Command) (sampling : Option Sampling) (scope : Scope)
    (ambient : Text) :
    (PromptTemplate.byMethod render command sampling scope ambient mine).DeepenedBy
      (PromptTemplate.byMethod render' command sampling scope ambient yours) := by
  unfold PromptTemplate.byMethod
  split
  · exact h
  · exact h
  · exact walkBranch hrender command _ scope ambient

/-- What is taken is the same, unless taking the first ones comes to their limit. -/
theorem take (h : mine.DeepenedBy yours) (count : Option Nat) (s : Session)
    (hends : (mine.take count s).2.1 ≠ .failed .tooDeep) :
    yours.take count s = mine.take count s := by
  obtain ⟨hbranches, hsame⟩ := Together.Yields.take h count trivial hends
  refine Prod.ext ?_ hsame.symm
  have hequal : List.Forall₂ Eq (mine.take count s).1 (yours.take count s).1 :=
    hbranches.imp fun first second hmatch => by
      obtain ⟨text, scope⟩ := first
      obtain ⟨rfl, rfl⟩ := hmatch
      rfl
  exact (List.forall₂_eq_eq_eq ▸ hequal).symm

end DeepenedBy

end Branches

/-- Every node has the branches that it has for the first one, unless that comes to its limit. -/
def Enumerator.DeepenedBy (mine yours : Enumerator) : Prop :=
  ∀ (command : Command) (scope : Scope) (ambient : Text),
    (mine command scope ambient).DeepenedBy (yours command scope ambient)

section Branches

open Branches.DeepenedBy

variable {mine yours : Enumerator} (h : mine.DeepenedBy yours)
include h

/-- Nodes one after another, by induction on their list. -/
theorem product_deepened (children : List Command) (scope : Scope) (ambient : Text) :
    (product mine children scope ambient).DeepenedBy (product yours children scope ambient) := by
  induction children generalizing scope ambient with
  | nil => exact refl _
  | cons child children ih => exact (h child scope ambient).bind fun first => (ih _ _).map _

/-- Values that are joined, by induction on those that are left. -/
theorem joinedBranches_deepened (separator ambient : Text) (parts : List Text)
    (values : List Command) (scope : Scope) :
    (joinedBranches mine separator ambient parts values scope).DeepenedBy
      (joinedBranches yours separator ambient parts values scope) := by
  induction values generalizing parts scope with
  | nil => exact refl _
  | cons value values ih => exact (h value scope ambient).bind fun branch => ih _ _

/-- Each choice of a variant joins the same options. -/
theorem variantBranches_deepened (options : List (Weighted Command)) (least most : Nat)
    (separator : Text) (scope : Scope) (ambient : Text) :
    (variantBranches mine options least most separator scope ambient).DeepenedBy
      (variantBranches yours options least most separator scope ambient) := by
  unfold variantBranches
  split
  · exact refl _
  · exact .forEach (fun choice => joinedBranches_deepened h separator ambient [] _ scope) _

/-- The branches of the name of a wildcard. -/
theorem nameBranches_deepened (scope : Scope) (ambient : Text) (name : WildcardName Command) :
    (nameBranches mine scope ambient name).DeepenedBy (nameBranches yours scope ambient name) := by
  cases name with
  | fixed name => exact refl _
  | rendered command => exact h command scope ambient

/-- Those of its candidates; the lookup is the same. -/
theorem candidateBranches_deepened (env : Environment) (inlined : List (Text × Command))
    (ambient : Text) (name : Branch) :
    (candidateBranches env mine inlined ambient name).DeepenedBy
      (candidateBranches env yours inlined ambient name) := by
  obtain ⟨text, scope⟩ := name
  rw [Comparison.Choosing.candidateBranches_eq, Comparison.Choosing.candidateBranches_eq]
  refine Together.Yields.ofSession (p := fun _ => True) (fun _ _ => ⟨trivial, fun _ _ => trivial⟩)
    fun found _ => ?_
  split
  · exact refl _
  · exact Branches.DeepenedBy.forEach (fun candidate => (h candidate _ ambient).map _) found

/-- Those of what a variable stands for, or of whatever there is without a binding. -/
theorem bindingBranches_deepened (scope : Scope) (ambient name : Text) {otherwise other : Branches}
    (hnone : otherwise.DeepenedBy other) :
    ((bindingBranches mine scope ambient name).getD otherwise).DeepenedBy
      ((bindingBranches yours scope ambient name).getD other) := by
  unfold bindingBranches
  split
  · exact hnone
  · exact refl _
  · exact (h _ _ ambient).map _

/-- Those of the target of a condition. -/
theorem targetBranches_deepened (scope : Scope) (ambient : Text) (key : Option Text) :
    (targetBranches mine scope ambient key).DeepenedBy
      (targetBranches yours scope ambient key) := by
  cases key with
  | none => exact refl _
  | some key => exact bindingBranches_deepened h scope ambient key (refl _)

/-- Those of a condition, by induction on what is left of it. -/
theorem conditionBranches_deepened (otherwise : Command) (ambient : Text)
    (branches : List (Guarded Command)) (scope : Scope) :
    (conditionBranches mine otherwise ambient branches scope).DeepenedBy
      (conditionBranches yours otherwise ambient branches scope) := by
  induction branches generalizing scope with
  | nil => exact h otherwise scope ambient
  | cons branch branches ih =>
    refine (targetBranches_deepened h scope ambient _).bind fun target => ?_
    split
    · exact h branch.value target.scope ambient
    · exact ih target.scope

/-- Those of a variable that is read. -/
theorem accessBranches_deepened (scope : Scope) (ambient name : Text) (fallback : Option Command) :
    (accessBranches mine scope ambient name fallback).DeepenedBy
      (accessBranches yours scope ambient name fallback) := by
  -- the fallback stands where no binding is found, in both enumerators; written so, one law serves
  have hgetD (enumerate : Enumerator) : accessBranches enumerate scope ambient name fallback =
      (bindingBranches enumerate scope ambient name).getD
        (fallback.elim (.fail (.unknownVariable name)) fun command =>
          enumerate command scope ambient) := by
    unfold accessBranches
    cases bindingBranches enumerate scope ambient name with
    | some branches => rfl
    | none => cases fallback <;> rfl
  rw [hgetD, hgetD]
  refine bindingBranches_deepened h scope ambient name ?_
  cases fallback with
  | some command => exact h command scope ambient
  | none => exact refl _

/-- Those of an assignment: of its value, if that is rendered at once. -/
theorem assignmentBranches_deepened (scope : Scope) (ambient name : Text) (value : Command)
    (overwrite immediate : Bool) :
    (assignmentBranches mine scope ambient name value overwrite immediate).DeepenedBy
      (assignmentBranches yours scope ambient name value overwrite immediate) := by
  unfold assignmentBranches
  split
  · exact refl _
  · split
    · exact (h value scope ambient).map _
    · exact refl _

/-- The branches of every node are deeper if those of the nodes in it are. -/
theorem enumerateNode_deepened (env : Environment) {limit : Nat} (hlimit : env.depthLimit ≤ limit) :
    Enumerator.DeepenedBy (enumerateNode env .distinct mine)
      (enumerateNode { env with depthLimit := limit } .distinct yours) := by
  have hrender : Renderer.DeepenedBy (renderOnce env)
      (renderOnce { env with depthLimit := limit }) := by
    have hlimited : renderOnce { env with depthLimit := limit } = renderWithin env limit :=
      renderWithin_depthLimit env limit limit
    -- the limit of the environment is read nowhere below: only the depth given to the walk counts
    rw [hlimited]
    exact renderWithin_deepened env hlimit
  intro command scope ambient
  cases command with
  | literal text => exact refl _
  | comment text => exact refl _
  | sequence children =>
    have hchildren := product_deepened h children scope ambient
    rw [← sequenceBranches_eq_product, ← sequenceBranches_eq_product] at hchildren
    exact hchildren
  | variant label options least most separator sampling =>
    exact .byMethod hrender
      (variantBranches_deepened h options least most separator scope ambient) _ _ _ _
  | wildcard label name inlined sampling =>
    refine .byMethod hrender ?_ _ _ _ _
    exact (nameBranches_deepened h scope ambient name).distinct.bind
      (candidateBranches_deepened h env inlined ambient)
  | wrap wrapper inner =>
    exact (h inner scope ambient).bind fun inner => (h wrapper inner.scope ambient).map _
  | probability label chance value sampling =>
    refine .byMethod hrender (.forEach (fun included => ?_) _) _ _ _ _
    cases included with
    | true => exact h value scope ambient
    | false => exact refl _
  | condition branches otherwise =>
    exact conditionBranches_deepened h otherwise ambient branches scope
  | access name fallback => exact accessBranches_deepened h scope ambient name fallback
  | assignment name value overwrite immediate =>
    exact assignmentBranches_deepened h scope ambient name value overwrite immediate

end Branches

/-- Enumerations that may go deeper. -/
theorem enumerateWithin_deepened (env : Environment) {limit depth deep : Nat}
    (hlimit : env.depthLimit ≤ limit) (hdeep : depth ≤ deep) :
    Enumerator.DeepenedBy (enumerateWithin env .distinct depth)
      (enumerateWithin { env with depthLimit := limit } .distinct deep) := by
  induction depth generalizing deep with
  | zero => exact fun command scope ambient => Together.Yields.tooDeep
  | succ depth ih =>
    obtain ⟨deep, rfl⟩ := Nat.exists_eq_add_one_of_ne_zero (Nat.ne_zero_of_lt hdeep)
    exact enumerateNode_deepened (ih (Nat.le_of_succ_le_succ hdeep)) env hlimit

/-! ## 3. Limits -/

/-- Two ways of rendering that have a depth limit do the same. What the first one does without
coming to its limit, the second one does too at every limit that is `slack` nodes higher; and
whatever the two limits are, both do the same where neither comes to its own. -/
structure Walk.SameBeyond {α : Type} (slack : Nat) (mine yours : Nat → Walk α) : Prop where
  deeper : ∀ limit other, limit + slack ≤ other → (mine limit).DeepenedBy (yours other)
  either : ∀ (limit other : Nat) (w : Walking), (mine limit w).1 ≠ .error .tooDeep →
    (yours other w).1 ≠ .error .tooDeep → yours other w = mine limit w

/-- A walk that is deeper up to a slack, in both directions, is the same beyond it. -/
theorem Walk.SameBeyond.of_deepened {α : Type} {slack : Nat} {mine yours : Nat → Walk α}
    (hyours : ∀ limit other, limit ≤ other → (yours limit).DeepenedBy (yours other))
    (h : ∀ limit, (mine limit).DeepenedBy (yours (limit + slack))) :
    SameBeyond slack mine yours where
  deeper limit other hle := (h limit).trans (hyours _ other hle)
  either limit other w hmine hother := by
    -- both are what the second one does at a limit above the two
    have hfirst := ((h limit).trans (hyours _ (max other (limit + slack)) (by omega))) w hmine
    exact (hyours other (max other (limit + slack)) (by omega) w hother).symm.trans hfirst

/-- Two ways of enumerating that have a depth limit do the same. At every limit of the second one
that is `slack` nodes higher its runs are those of the first one, as far as these do not come to
their limit; and whatever the two limits are, the same branches are taken from one session, with
the same ending and in the same session, where neither comes to its own. -/
structure Branches.SameBeyond (slack : Nat) (mine yours : Nat → Branches) : Prop where
  deeper : ∀ limit other, limit + slack ≤ other → (mine limit).DeepenedBy (yours other)
  either : ∀ (limit other : Nat) (count : Option Nat) (s : Session),
    ((mine limit).take count s).2.1 ≠ .failed .tooDeep →
    ((yours other).take count s).2.1 ≠ .failed .tooDeep →
    (yours other).take count s = (mine limit).take count s

/-- So are branches. -/
theorem Branches.SameBeyond.of_deepened {slack : Nat} {mine yours : Nat → Branches}
    (hyours : ∀ limit other, limit ≤ other → (yours limit).DeepenedBy (yours other))
    (h : ∀ limit, (mine limit).DeepenedBy (yours (limit + slack))) :
    SameBeyond slack mine yours where
  deeper limit other hle := (h limit).trans (hyours _ other hle)
  either limit other count s hmine hother := by
    have hfirst :=
      ((h limit).trans (hyours _ (max other (limit + slack)) (by omega))).take count s hmine
    exact ((hyours other (max other (limit + slack)) (by omega)).take count s hother).symm.trans
      hfirst

end PromptTemplate
