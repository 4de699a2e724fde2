/-
`Reassigning.lean` -- a variable that is extended again and again.

A deferred body renders where its own name reads as the binding that it replaced, so bodies assigned
one after another form a chain, and a reading of the variable goes down the chain once for every
reading in every body on the way. What comes out is what substitution says: the first body with its
defaults, put into the second one, and so on (`substituted`). Walks and branches are told together:
in a scope a node comes to one result in both (`Command.ComesTo`), and there is one lemma for each
kind of node that the bodies have. The induction is on the chain of bindings (`StandsFor.answers`).
-/
import PromptTemplate.Proofs.Expansion.Sequences

set_option autoImplicit false

namespace PromptTemplate

/-! ## 1. Bodies and substitution -/

/-- A part of a body: a literal, or a reading of the variable, which can have a literal as its
default. -/
inductive Piece
  | literal (text : Text)
  | access (fallback : Option Text)

/-- The pieces of a body, put together as those of a template are, or left as a sequence. -/
structure Body where
  pieces : List Piece
  joined : Bool

/-- The node of a piece in a body of the variable. -/
def Piece.command (name : Text) : Piece → Command
  | literal text => .literal text
  | access fallback => .access name (fallback.map .literal)

/-- A body of the variable. -/
def Body.command (name : Text) (body : Body) : Command :=
  if body.joined then .ofList (body.pieces.map (·.command name))
  else .sequence (body.pieces.map (·.command name))

/-- The bodies assigned to the variable one after another, and a reading of it behind them. -/
def reassigning (name : Text) (bodies : List Body) (fallback : Option Command) : Command :=
  .sequence (bodies.map (fun body => .assignment name (body.command name) true false) ++
    [.access name fallback])

/-- A piece where nothing was assigned before. -/
def Piece.alone : Piece → Option Text
  | literal text => some text
  | access fallback => fallback

/-- A piece where the variable comes to an earlier text, or to none. -/
def Piece.extending (earlier : Option Text) : Piece → Option Text
  | literal text => some text
  | access _ => earlier

/-- The text of pieces, if each of them has one. -/
def substitute (read : Piece → Option Text) (pieces : List Piece) : Option Text :=
  (pieces.mapM read).map List.flatten

/-- The first body with its defaults, put into the next one for every reading of the variable, and
so on. -/
def substituted (first : Body) (later : List Body) : Option Text :=
  later.foldl (fun earlier body => substitute (Piece.extending earlier) body.pieces)
    (substitute Piece.alone first.pieces)

/-- A reading of the variable that comes to a text, or to none. -/
def reading (name : Text) : Option Text → Except WalkError Text
  | some text => .ok text
  | none => .error (.unknownVariable name)

/-- A piece, given what the variable stands for, if for anything. -/
def Piece.read (stands : Option (Option Text)) : Piece → Option Text := stands.elim alone extending

section Substitution

variable {read : Piece → Option Text} {piece : Piece} {pieces : List Piece}

/-- A piece that has a text is put before what the others make. -/
theorem substitute_cons_some {text : Text} (h : read piece = some text) :
    substitute read (piece :: pieces) = (substitute read pieces).map (text ++ ·) := by
  rw [substitute, substitute, List.mapM_cons, h]
  cases pieces.mapM read <;> rfl

/-- A piece without a text leaves the whole body without one. -/
theorem substitute_cons_none (h : read piece = none) :
    substitute read (piece :: pieces) = none := by
  rw [substitute, List.mapM_cons, h]
  rfl

/-- A text before what a reading makes. -/
theorem reading_map (name text : Text) (found : Option Text) :
    (reading name found).map (text ++ ·) = reading name (found.map (text ++ ·)) := by
  cases found <;> rfl

/-- A reading fails, if it does, by an unknown variable. -/
theorem reading_ne_tooDeep (name : Text) (found : Option Text) :
    reading name found ≠ .error .tooDeep := by
  cases found <;> simp [reading]

end Substitution

/-! ## 2. One result -/

namespace Branches

/-- One branch, or the error in its place. -/
def ofResult (result : Except WalkError Text) (scope : Scope) : Branches :=
  match result with
  | .ok text => .single ⟨text, scope⟩
  | .error error => .fail error

/-- What runs like the end of a run is the end. -/
theorem eq_done_of_runs {known : Session → Prop} {settled : Scope → Scope → Prop} {s : Session}
    {run : Run} (h : Together.Runs known settled (.done s) run) : run = .done s := by
  cases h
  rfl

/-- What is deeper than one result is that result. -/
theorem DeepenedBy.eq_ofResult {result : Except WalkError Text} {scope : Scope} {yours : Branches}
    (h : (ofResult result scope).DeepenedBy yours) (hresult : result ≠ .error .tooDeep) :
    yours = ofResult result scope := by
  funext s
  have hrun := h s trivial
  revert hrun
  -- the run has one branch at most, so the deeper one can only be the same
  generalize yours s = run
  cases result with
  | error error =>
    intro hrun
    cases hrun with
    | fail _ => rfl
    | tooDeep => exact absurd rfl hresult
  | ok text =>
    intro hrun
    cases hrun with
    | yield hscope _ hrest =>
      obtain rfl := hscope
      exact congrArg (Run.yield _ s) (funext fun s => eq_done_of_runs (hrest s trivial))

end Branches

/-- In a scope there is one result, for walks by every method and for branches, with one scope after
it and the session as it was. -/
structure OneResult (walk : Sampling → Text → Walk Text) (branches : Scope → Text → Branches)
    (scope after : Scope) (result : Except WalkError Text) : Prop where
  walked : ∀ (method : Sampling) (ambient : Text) (s : Session), walk method ambient ⟨scope, s⟩ =
    (result, ⟨after, s⟩)
  listed : ∀ ambient, branches scope ambient = .ofResult result after

/-- One result that is not too deep stays the result deeper. -/
theorem OneResult.deepened {walk walk' : Sampling → Text → Walk Text}
    {branches branches' : Scope → Text → Branches} {scope after : Scope}
    {result : Except WalkError Text} (h : OneResult walk branches scope after result)
    (hresult : result ≠ .error .tooDeep)
    (hwalk : ∀ method ambient, (walk method ambient).DeepenedBy (walk' method ambient))
    (hbranches : ∀ ambient, (branches scope ambient).DeepenedBy (branches' scope ambient)) :
    OneResult walk' branches' scope after result where
  walked method ambient s := by
    have hwalked := h.walked method ambient s
    rw [← hwalked]
    exact hwalk method ambient ⟨scope, s⟩ (by rw [hwalked]; exact hresult)
  listed ambient := Branches.DeepenedBy.eq_ofResult (h.listed ambient ▸ hbranches ambient) hresult

/-! ## 3. The nodes of a body -/

/-- A node comes to one result, at a depth. -/
def Command.ComesTo (env : Environment) (depth : Nat) (command : Command) :
    (scope after : Scope) → Except WalkError Text → Prop :=
  OneResult (renderWithin env depth command) (enumerateWithin env .distinct depth command)

/-- Nodes one after another come to one result. -/
def Command.TogetherComeTo (env : Environment) (depth : Nat) (commands : List Command) :
    (scope after : Scope) → Except WalkError Text → Prop :=
  OneResult (fun method => renderSequence (renderWithin env depth) method commands)
    (product (enumerateWithin env .distinct depth) commands)

section Nodes

variable {env : Environment} {depth : Nat} {command : Command} {commands : List Command}
  {scope between after : Scope} {text name : Text} {result : Except WalkError Text}
    {error : WalkError}

open Command

namespace Command.ComesTo

/-- A node comes to its result at any greater depth. -/
theorem mono (h : command.ComesTo env depth scope after result) (hresult : result ≠ .error .tooDeep)
    {deep : Nat} (hdeep : depth ≤ deep) : command.ComesTo env deep scope after result :=
  OneResult.deepened h hresult (renderWithin_deepened env hdeep command)
    (enumerateWithin_deepened env (Nat.le_refl _) hdeep command scope)

section Limit

variable (h : command.ComesTo env depth scope after result) (hresult : result ≠ .error .tooDeep)
include h hresult

/-- A walk has the result where its depth limit is far enough, or is not come to. -/
theorem renderOnce_eq {method : Sampling} {ambient : Text} {s : Session}
    (hends : depth ≤ env.depthLimit ∨
      (renderOnce env command method ambient ⟨scope, s⟩).1 ≠ .error .tooDeep) :
    renderOnce env command method ambient ⟨scope, s⟩ = (result, ⟨after, s⟩) := by
  rcases hends with hdeep | hends
  · exact (h.mono hresult hdeep).walked method ambient s
  · have hdeeper :=
      renderWithin_deepened env (Nat.le_max_left env.depthLimit depth) command method ambient
      ⟨scope, s⟩ hends
    exact hdeeper.symm.trans ((h.mono hresult (Nat.le_max_right _ _)).walked method ambient s)

/-- Branches have the result where their depth limit is far enough, or is not come to. -/
theorem take_enumerate_eq {ambient : Text} {s : Session}
    (hends : depth ≤ env.depthLimit ∨
      ((enumerate env command scope ambient).take none s).2.1 ≠ .failed .tooDeep) :
    (enumerate env command scope ambient).take none s =
      (Branches.ofResult result after).take none s := by
  rcases hends with hdeep | hends
  · rw [enumerate, (h.mono hresult hdeep).listed ambient]
  · have hdeeper :=
      enumerateWithin_deepened env (Nat.le_refl _) (Nat.le_max_left env.depthLimit depth) command
      scope ambient
    rw [← (h.mono hresult (Nat.le_max_right _ _)).listed ambient]
    exact (hdeeper.take none s hends).symm

end Limit

/-- A literal comes to its text. -/
theorem literal (text : Text) :
    (Command.literal text).ComesTo env (depth + 1) scope scope (.ok text) :=
  ⟨fun _ _ _ => rfl, fun _ => rfl⟩

/-- An assignment comes to no text, and binds the value for later. -/
theorem assignment (name : Text) (value : Command) :
    (Command.assignment name value true false).ComesTo env (depth + 1) scope
      (scope.bind name (.deferred value (scope.lookup name))) (.ok []) :=
  ⟨fun _ _ _ => rfl, fun _ => rfl⟩

end Command.ComesTo

namespace Command.TogetherComeTo

/-- No nodes come to no text. -/
theorem nil : TogetherComeTo env depth [] scope scope (.ok []) := ⟨fun _ _ _ => rfl, fun _ => rfl⟩

/-- The text of the first node is put before what the others come to. -/
theorem cons (hfirst : command.ComesTo env depth scope between (.ok text))
    (hrest : TogetherComeTo env depth commands between after result) :
    TogetherComeTo env depth (command :: commands) scope after (result.map (text ++ ·)) where
  walked method ambient s := by
    rw [renderSequence, Walk.bind_ok (hfirst.walked method ambient s), Walk.bind_apply,
      hrest.walked method (ambient ++ text) s]
    cases result <;> rfl
  listed ambient := by
    rw [product, hfirst.listed, Branches.ofResult, Branches.single_bind, hrest.listed]
    cases result <;> rfl

/-- One node comes to what it comes to. -/
theorem singleton (h : command.ComesTo env depth scope after result) :
    TogetherComeTo env depth [command] scope after result where
  walked method ambient s := by
    rw [renderSequence_singleton]
    exact h.walked method ambient s
  listed ambient := (product_singleton ..).trans (h.listed ambient)

/-- An error of the first node ends all of them. -/
theorem cons_error (hfirst : command.ComesTo env depth scope after (.error error)) :
    TogetherComeTo env depth (command :: commands) scope after (.error error) where
  walked method ambient s := by
    rw [renderSequence, Walk.bind_apply, hfirst.walked method ambient s]
  listed ambient := by
    rw [product, hfirst.listed]
    rfl

/-- A sequence comes to what its nodes come to. -/
theorem sequence (h : TogetherComeTo env depth commands scope after result) :
    (Command.sequence commands).ComesTo env (depth + 1) scope after result where
  walked := h.walked
  listed ambient := (sequenceBranches_eq_product _ ambient commands scope).trans (h.listed ambient)

/-- So do nodes that are put together. -/
theorem ofList (h : TogetherComeTo env depth commands scope after result)
    (hresult : result ≠ .error .tooDeep) :
    (Command.ofList commands).ComesTo env (depth + 1) scope after result :=
  OneResult.deepened h hresult
    (fun method ambient => (walks_sequencing env).together_ofList depth commands (method, ambient))
    (fun ambient => (branchings_sequencing env).together_ofList depth commands (scope, ambient))

end Command.TogetherComeTo

/-! ### Readings of the variable -/

/-- Reading a binding, by what it is. -/
theorem renderBinding_apply (render : Renderer) (method : Sampling) (ambient name : Text)
    (w : Walking) :
    renderBinding render method ambient name w =
      match w.scope.lookup name with
      | none => (.ok none, w)
      | some (.evaluated text) => (.ok (some text), w)
      | some (.deferred command previous) =>
        (Walk.within (resolvingFrame name previous) (render command method ambient) >>= fun text =>
          pure (some text)) w := by
  have hlookup : Walk.lookup name w = (.ok (w.scope.lookup name), w) := rfl
  rw [renderBinding, Walk.bind_ok hlookup]
  rcases w.scope.lookup name with _ | ⟨text⟩ | ⟨command, previous⟩ <;> rfl

/-- There is nothing to read where the name is unbound. -/
theorem renderBinding_unbound (render : Renderer) (method : Sampling) (ambient : Text) {w : Walking}
    (hunbound : w.scope.lookup name = none) :
    renderBinding render method ambient name w = (.ok none, w) := by
  rw [renderBinding_apply, hunbound]

namespace Command.ComesTo

/-- Without a binding a reading comes to what its default does. -/
theorem access_default (hunbound : scope.lookup name = none)
    (h : command.ComesTo env depth scope after result) :
    (Command.access name (some command)).ComesTo env (depth + 1) scope after result where
  walked method ambient s :=
    (Walk.bind_ok (renderBinding_unbound _ method ambient hunbound)).trans
      (h.walked method ambient s)
  listed ambient := by
    have hbranches : accessBranches (enumerateWithin env .distinct depth) scope ambient name
        (some command) =
        enumerateWithin env .distinct depth command scope ambient := by
      rw [accessBranches, bindingBranches, hunbound]
    exact hbranches.trans (h.listed ambient)

/-- Reading a variable without a default fails where it is unbound. -/
theorem access_unknown (hunbound : scope.lookup name = none) :
    (Command.access name none).ComesTo env (depth + 1) scope scope (.error (.unknownVariable name))
      where
  walked method ambient _ := Walk.bind_ok (renderBinding_unbound _ method ambient hunbound)
  listed ambient := by
    show accessBranches (enumerateWithin env .distinct depth) scope ambient name none = _
    rw [accessBranches, bindingBranches, hunbound]
    rfl

/-- A deferred binding renders where the name reads as the binding that it replaced, whatever the
default, and leaves the scope as it was. -/
theorem access_deferred {previous : Option Binding}
    (hbound : scope.lookup name = some (.deferred command previous))
    (h : command.ComesTo env depth (scope.push (resolvingFrame name previous)) after result)
    (hparents : after.pop = scope) (fallback : Option Command) :
    (Command.access name fallback).ComesTo env (depth + 1) scope scope result where
  walked method ambient s := by
    -- the value renders with the name as it was before, in a frame that is then left
    have hwithin : Walk.within (resolvingFrame name previous)
        (renderWithin env depth command method ambient)
        ⟨scope, s⟩ = (result, ⟨scope, s⟩) := by
      rw [Walk.within, h.walked method ambient s]
      simp only [hparents]
    show (renderBinding _ _ _ _ >>= _) _ = _
    rw [Walk.bind_apply, renderBinding_apply, hbound]
    dsimp only
    rw [Walk.bind_apply, hwithin]
    cases result <;> rfl
  listed ambient := by
    show accessBranches (enumerateWithin env .distinct depth) scope ambient name fallback = _
    simp only [accessBranches, bindingBranches, hbound]
    rw [h.listed]
    cases result <;> rfl

end Command.ComesTo

end Nodes

/-! ## 4. The chain of bindings -/

/-- In the scope that resolves a name, it reads as the earlier binding. -/
theorem Scope.lookup_resolving_self (scope : Scope) (name : Text) (previous : Option Binding) :
    (scope.push (resolvingFrame name previous)).lookup name = previous := by
  rw [lookup_resolving, if_pos rfl]

section Chain

variable {env : Environment} {name : Text} {depth : Nat} {scope : Scope}
  {stands : Option (Option Text)}

/-- In this scope every piece comes to what it reads as. -/
def Answers (env : Environment) (name : Text) (depth : Nat) (stands : Option (Option Text))
    (scope : Scope) : Prop :=
  ∀ piece : Piece,
    (piece.command name).ComesTo env depth scope scope (reading name (piece.read stands))

/-- What a binding of the variable stands for: bodies down to where nothing was bound. -/
inductive StandsFor (name : Text) : (bodies : Nat) → Option Binding → Option (Option Text) → Prop
  | unbound : StandsFor name 0 none none
  | deferred {bodies : Nat} {binding : Option Binding} {stands : Option (Option Text)} (body : Body)
      (earlier : StandsFor name bodies binding stands) :
    StandsFor name (bodies + 1) (some (.deferred (body.command name) binding))
      (some (substitute (Piece.read stands) body.pieces))

/-- Pieces come to their substitution, up to the first one that has no text. -/
theorem Answers.together (h : Answers env name depth stands scope) (pieces : List Piece) :
    Command.TogetherComeTo env depth (pieces.map (·.command name)) scope scope
      (reading name (substitute (Piece.read stands) pieces)) := by
  induction pieces with
  | nil => exact .nil
  -- the first piece without a value ends the reading; the rest are not looked at
  | cons piece pieces ih =>
    have hpiece := h piece
    cases hread : piece.read stands with
    | none =>
      rw [hread] at hpiece
      rw [substitute_cons_none hread]
      exact .cons_error hpiece
    | some text =>
      rw [hread] at hpiece
      rw [substitute_cons_some hread, ← reading_map]
      exact .cons hpiece ih

/-- A body comes to what it makes when its readings are answered. -/
theorem Answers.body (h : Answers env name depth stands scope) (body : Body) :
    (body.command name).ComesTo env (depth + 1) scope scope
      (reading name (substitute (Piece.read stands) body.pieces)) := by
  unfold Body.command
  split
  · exact (h.together body.pieces).ofList (reading_ne_tooDeep name _)
  · exact (h.together body.pieces).sequence

/-- A reading of the variable comes to its last body, where the pieces read as what that one
replaced. -/
theorem Answers.access {binding : Option Binding} {body : Body}
    (hbound : scope.lookup name = some (.deferred (body.command name) binding))
    (hearlier : Answers env name depth stands (scope.push (resolvingFrame name binding)))
    (fallback : Option Command) :
    (Command.access name fallback).ComesTo env (depth + 2) scope scope
      (reading name (substitute (Piece.read stands) body.pieces)) :=
  .access_deferred hbound (hearlier.body body) rfl fallback

/-- Pieces are answered two nodes deeper for every binding in the chain. The induction goes down the
chain; inside the scope of a reading the name stands for the rest of it. -/
theorem StandsFor.answers {bodies : Nat} {binding : Option Binding}
    (h : StandsFor name bodies binding stands) (hbinding : scope.lookup name = binding)
    (hdepth : 2 * bodies + 2 ≤ depth) :
    Answers env name depth stands scope := by
  induction h generalizing scope depth with
  | unbound =>
    obtain ⟨depth, rfl⟩ := Nat.exists_eq_add_of_le' hdepth
    rintro (text | _ | text)
    · exact .literal text
    · exact .access_unknown hbinding
    · exact .access_default hbinding (.literal text)
  | @deferred bodies binding stands body _ ih =>
    obtain ⟨depth, rfl⟩ := Nat.exists_eq_add_of_le' (Nat.le_trans (Nat.le_add_left 2 _) hdepth)
    rintro (text | fallback)
    · exact .literal text
    · exact Answers.access hbinding (ih (Scope.lookup_resolving_self ..) (by omega)) _

/-! ## 5. Assignments -/

/-- The scope after the variable was assigned a body. -/
def Body.assign (name : Text) (scope : Scope) (body : Body) : Scope :=
  scope.bind name (.deferred (body.command name) (scope.lookup name))

/-- Each body makes the chain one longer. -/
theorem StandsFor.foldl {length : Nat} (h : StandsFor name length (scope.lookup name) stands)
    (bodies : List Body) :
    StandsFor name (length + bodies.length) ((bodies.foldl (Body.assign name) scope).lookup name)
      (bodies.foldl (fun stands body => some (substitute (Piece.read stands) body.pieces))
        stands) := by
  induction bodies generalizing length scope stands with
  | nil => exact h
  | cons body bodies ih =>
    have hbody : StandsFor name (length + 1) ((body.assign name scope).lookup name)
        (some (substitute (Piece.read stands) body.pieces)) := by
      rw [Body.assign, Scope.lookup_bind, if_pos rfl]
      exact h.deferred body
    have hrest := ih hbody
    rwa [Nat.add_right_comm] at hrest

/-- Behind bodies for an unbound name stands what they make one after another. -/
theorem StandsFor.of_unbound (hunbound : scope.lookup name = none) (first : Body)
    (later : List Body) :
    StandsFor name (later.length + 1)
      (((first :: later).foldl (Body.assign name) scope).lookup name)
      (some (substituted first later)) := by
  have hunread : StandsFor name 0 (scope.lookup name) none := hunbound ▸ .unbound
  have hchain := hunread.foldl (first :: later)
  have hsubstituted : (first :: later).foldl (fun stands body =>
      some (substitute (Piece.read stands) body.pieces))
      none = some (substituted first later) := List.foldl_hom some fun _ _ => rfl
  rwa [hsubstituted, Nat.zero_add] at hchain

/-- Behind assignments of bodies nodes come to what they do in the scope after those. -/
theorem Command.TogetherComeTo.assignments {commands : List Command} {after : Scope}
    {result : Except WalkError Text} (bodies : List Body)
    (h : TogetherComeTo env (depth + 1) commands (bodies.foldl (Body.assign name) scope)
      after result) :
    TogetherComeTo env (depth + 1)
      (bodies.map (fun body => .assignment name (body.command name) true false) ++
        commands) scope after result := by
  induction bodies generalizing scope with
  | nil => exact h
  | cons body bodies ih =>
    have hrest := TogetherComeTo.cons (.assignment name (body.command name)) (ih h)
    cases result <;> exact hrest

/-- Assignments and a reading come to the substituted text, whatever the default of the reading. -/
theorem reassigning_comesTo (env : Environment) (hunbound : scope.lookup name = none) (first : Body)
    (later : List Body) (fallback : Option Command) :
    (reassigning name (first :: later) fallback).ComesTo env (2 * later.length + 5) scope
      ((first :: later).foldl (Body.assign name) scope)
        (reading name (substituted first later)) := by
  refine Command.TogetherComeTo.sequence (.assignments _ ?_)
  have hchain := StandsFor.of_unbound hunbound first later
  revert hchain
  generalize (first :: later).foldl (Body.assign name) scope = left, substituted first later = found
  generalize hbinding : left.lookup name = binding
  rintro (_ | @⟨bodies, binding, stands, body, hearlier⟩)
  have hanswers : Answers env name (2 * later.length + 2) stands
      (left.push (resolvingFrame name binding)) :=
    hearlier.answers (Scope.lookup_resolving_self ..) (Nat.le_refl _)
  exact .singleton (hanswers.access hbinding fallback)

end Chain

/-- **Reassigning a variable is substitution again and again.** Where the variable is unbound,
assign bodies to it one after another and read it: walks by every method and branches come to the
first body with its defaults, put into the second one for every reading there, and so on; and if
that has no text, because a reading without a default stands for nothing, to the error of an unknown
variable. The depth limit is not come to from two nodes for each body on, and where a lower one is
not come to nothing else comes out. -/
theorem reassigning_substitutes (env : Environment) {name : Text} {scope : Scope}
    (hunbound : scope.lookup name = none) (first : Body) (later : List Body)
    (fallback : Option Command) (ambient : Text) (s : Session) :
    let tree := reassigning name (first :: later) fallback
    let left := (first :: later).foldl (Body.assign name) scope
    let deep := 2 * later.length + 5 ≤ env.depthLimit
    (∀ method,
      let outcome := renderOnce env tree method ambient ⟨scope, s⟩
      deep ∨ outcome.1 ≠ .error .tooDeep → outcome = (reading name (substituted first later),
        ⟨left, s⟩)) ∧
    let outcome := (enumerate env tree scope ambient).take none s
    deep ∨ outcome.2.1 ≠ .failed .tooDeep →
      outcome = match substituted first later with
        | some text => ([⟨text, left⟩], .exhausted, s)
        | none => ([], .failed (.unknownVariable name), s) := by
  have hcomes := reassigning_comesTo env hunbound first later fallback
  have hreading := reading_ne_tooDeep name (substituted first later)
  refine ⟨fun method hends => hcomes.renderOnce_eq hreading hends, fun hends => ?_⟩
  refine (hcomes.take_enumerate_eq hreading hends).trans ?_
  cases substituted first later <;> rfl

/-- Nothing but variables, eleven nodes deep. -/
def variablesOnly : Environment where
  grammar := .standard
  source := fun _ => 0
  round := .exact
  policy := .automatic
  resolve := fun _ => .ok []
  depthLimit := 11

/-- A body that comes to nothing where nothing is bound. -/
def bareReading : Body := ⟨[.access none, .literal (units "!")], true⟩

/-- Bodies that extend what there is, one of them twice. -/
def extensions : List Body :=
  [⟨[.access none, .literal (units " B")], true⟩,
    ⟨[.access (some (units "Z")), .literal (units "-"), .access none], true⟩,
    ⟨[.literal (units "<"), .access none, .literal (units ">")], false⟩]

/-- Three extensions of a default; the same of a reading that stands for nothing; and those behind a
body that does not read the variable, where the unknown one is never read. -/
theorem reassigning_substitutes_thrice :
    let x := units "x"
    let defaultA : Body := ⟨[.access (some (units "A"))], true⟩
    let justC : Body := ⟨[.literal (units "C")], true⟩
    let s := Session.fresh 0
    (Scope.root []).lookup x = none ∧
      (∀ method,
        (renderOnce variablesOnly (reassigning x (defaultA :: extensions) none) method []
          ⟨.root [], s⟩).1 = .ok (units "<A B-A B>")) ∧
      ((enumerate variablesOnly (reassigning x (defaultA :: extensions) none) (.root []) []).take
        none s).1.map (·.text) =
        [units "<A B-A B>"] ∧
      (∀ method,
        (renderOnce variablesOnly (reassigning x (bareReading :: extensions) none) method []
        ⟨.root [], s⟩).1 =
        .error (.unknownVariable x)) ∧
      ((enumerate variablesOnly (reassigning x (bareReading :: extensions) none) (.root []) []).take
        none s).2.1 =
        .failed (.unknownVariable x) ∧
      ∀ method,
        (renderOnce variablesOnly (reassigning x [bareReading, justC, bareReading] none) method []
        ⟨.root [], s⟩).1 = .ok (units "C!") := by
  intro x defaultA justC s
  have hunbound : (Scope.root []).lookup x = none := rfl
  have hdefault := reassigning_substitutes variablesOnly hunbound defaultA extensions none [] s
  have hbare := reassigning_substitutes variablesOnly hunbound bareReading extensions none [] s
  have hliteral :=
    reassigning_substitutes variablesOnly hunbound bareReading [justC, bareReading] none [] s
  have hdeep : 2 * extensions.length + 5 ≤ variablesOnly.depthLimit := by decide
  refine ⟨hunbound, fun method => ?_, ?_, fun method => ?_, ?_, fun method => ?_⟩
  · rw [hdefault.1 method (.inl hdeep)]
    decide
  · rw [hdefault.2 (.inl hdeep)]
    decide
  · rw [hbare.1 method (.inl hdeep)]
    decide
  · rw [hbare.2 (.inl hdeep)]
    decide
  · rw [hliteral.1 method (.inl (by decide))]
    decide

end PromptTemplate
