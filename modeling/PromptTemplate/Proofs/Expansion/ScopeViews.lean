/-
`ScopeViews.lean` -- the scopes of a table as walks and enumerations see them.

Walks and enumerations pass a `Scope` along, which holds the entries of every scope on the way out.
In a `ScopeTable` these entries are shared and a binding is made in place. What a scope of the table
amounts to is its view: its own entries, then those of the scopes around it. Every operation of the
table is the one of `Scope` on the views, and the views of the scopes that were there stay, but for
those of the scope that is bound in and of the scopes inside it. So a session that binds only in
scopes of its own making, as an enumeration does, leaves every scope that it is given as it was.
-/
import PromptTemplate.Proofs.Expansion.SharedScopes

set_option autoImplicit false

namespace PromptTemplate

namespace ScopeTable

/-! ## 1. Views -/

/-- The entries of a scope, then those of the scopes around it, the innermost first. -/
def frames (table : ScopeTable) (number : Nat) : List Frame :=
  match table.scopes[number]? with
  | none => []
  | some scope =>
    match scope.parent with
    | none => [scope.own]
    | some parent => scope.own :: if parent < number then table.frames parent else []

/-- What a scope of the table is to whoever reads it now. -/
def view (table : ScopeTable) (number : Nat) : Scope :=
  ⟨(table.frames number).headD [], (table.frames number).tail⟩

section Table

variable {table : ScopeTable} {number target : Nat} {own : Frame} {parent : Option Nat}

/-- The frames of a scope that was made are its own entries and the frames of the scope around it.
-/
theorem frames_eq (hlinked : table.Linked) (h : table.scopes[number]? = some ⟨own, parent⟩) :
    table.frames number = own :: parent.elim [] table.frames := by
  rw [frames, h]
  cases parent with
  | none => rfl
  | some outer =>
    have hlt : outer < number := hlinked number outer (by rw [around, h]; rfl)
    simp only [hlt, if_true, Option.elim_some]

/-- The view of a scope that was made: its own entries, and the frames of the scope around it. -/
theorem view_eq (hlinked : table.Linked) (h : table.scopes[number]? = some ⟨own, parent⟩) :
    table.view number = ⟨own, parent.elim [] table.frames⟩ := by
  rw [view, frames_eq hlinked h]
  rfl

/-- The frames of a scope that was made are those of its view. -/
theorem frames_eq_view (hlinked : table.Linked) (hnumber : number < table.scopes.length) :
    table.frames number = (table.view number).own :: (table.view number).parents := by
  have hscope := List.getElem?_eq_getElem hnumber
  rw [frames_eq hlinked hscope, view_eq hlinked hscope]

/-- A scope of the table says of a name what its view says. The induction is on the number of the
scope, which falls on the way out. -/
theorem lookup_view (hlinked : table.Linked) (number : Nat) (name : Text) :
    (table.view number).lookup name = table.lookup number name := by
  -- a parent has a smaller number, so the search through the table is an induction on numbers
  induction number using Nat.strongRecOn with
  | ind number ih =>
    rw [lookup]
    cases hscope : table.scopes[number]? with
    | none =>
      rw [view, frames, hscope]
      rfl
    | some scope =>
      obtain ⟨own, parent⟩ := scope
      rw [view_eq hlinked hscope, Scope.lookup, lookupIn]
      dsimp only
      cases own.lookup name with
      | some found => rfl
      | none =>
        cases parent with
        | none => rfl
        | some outer =>
          have hlt : outer < number := hlinked number outer (by rw [around, hscope]; rfl)
          have houter : outer < table.scopes.length :=
            Nat.lt_trans hlt (List.getElem?_eq_some_iff.1 hscope).1
          dsimp only [Option.elim_some]
          rw [if_pos hlt, frames_eq_view hlinked houter]
          exact ih outer hlt

/-! ## 2. Making scopes -/

section Adding

variable (hlinked : table.Linked) (hparent : ∀ outer ∈ parent, outer < table.scopes.length)
include hlinked hparent

/-- The frames of the scopes that are there do not change when another one is made. -/
theorem frames_add (own : Frame) (hnumber : number < table.scopes.length) :
    (table.add own parent).2.frames number = table.frames number := by
  induction number using Nat.strongRecOn with
  | ind number ih =>
    have hscope := List.getElem?_eq_getElem hnumber
    rw [frames_eq hlinked hscope,
      frames_eq (hlinked.add own parent hparent) ((getElem?_add own parent hnumber).trans hscope)]
    congr 1
    cases haround : table.scopes[number].parent with
    | none => rfl
    | some outer =>
      have hlt : outer < number := hlinked number outer (by rw [around, hscope]; exact haround)
      exact ih outer hlt (Nat.lt_trans hlt hnumber)

/-- The views of the scopes that are there do not change when another one is made. -/
theorem view_add (own : Frame) (hnumber : number < table.scopes.length) :
    (table.add own parent).2.view number = table.view number := by
  rw [view, view, frames_add hlinked hparent own hnumber]

/-- A scope that is made has its entries, and the frames of the scope it is made in. -/
theorem view_add_self (own : Frame) :
    (table.add own parent).2.view (table.add own parent).1 =
      ⟨own, parent.elim [] table.frames⟩ := by
  have hmade : (table.add own parent).2.scopes[(table.add own parent).1]? = some ⟨own, parent⟩ :=
    List.getElem?_concat_length
  rw [view_eq (hlinked.add own parent hparent) hmade]
  cases parent with
  | none => rfl
  | some outer => exact congrArg _ (frames_add hlinked hparent own (hparent outer rfl))

end Adding

section Made

variable (hlinked : table.Linked) (hnumber : number < table.scopes.length)
include hlinked hnumber

/-- A scope inside another one is a frame before the view of that one. -/
theorem view_child (entries : Frame) :
    (table.child number entries).2.view (table.child number entries).1 =
      (table.view number).push entries := by
  have hparent : ∀ outer ∈ some number, outer < table.scopes.length :=
    fun outer houter => Option.some_inj.1 houter ▸ hnumber
  rw [child, view_add_self hlinked hparent]
  exact congrArg _ (frames_eq_view hlinked hnumber)

/-- The scope around a scope that is there was made before. -/
theorem lt_of_mem_parent : ∀ outer ∈ table.scopes[number].parent, outer < table.scopes.length := by
  have haround : table.around number = table.scopes[number].parent := by
    rw [around, List.getElem?_eq_getElem hnumber]
    rfl
  exact haround ▸ lt_of_mem_around hlinked hnumber

/-- A copy has the view of the original. -/
theorem view_clone : (table.clone number).2.view (table.clone number).1 = table.view number := by
  have hscope := List.getElem?_eq_getElem hnumber
  rw [clone, hscope]
  exact (view_add_self hlinked (lt_of_mem_parent hlinked hnumber) _).trans
    (view_eq hlinked hscope).symm

end Made

/-! ## 3. Binding -/

section Binding

variable (hlinked : table.Linked) (name : Text) (binding : Binding)
include hlinked

/-- The frames of the scopes that are neither bound in nor inside the scope bound in do not change.
A scope around such a one is such a one too. -/
theorem frames_bind_of_not (hnumber : number < table.scopes.length) (hne : number ≠ target)
    (houtside : ¬table.Encloses target number) :
    (table.bind target name binding).frames number = table.frames number := by
  induction number using Nat.strongRecOn with
  | ind number ih =>
    have hscope := List.getElem?_eq_getElem hnumber
    have hkept : (table.bind target name binding).scopes[number]? = some table.scopes[number] := by
      rw [bind, List.getElem?_modify, hscope]
      simp [Ne.symm hne]
    rw [frames_eq hlinked hscope, frames_eq hlinked.bind hkept]
    congr 1
    cases hparent : table.scopes[number].parent with
    | none => rfl
    | some outer =>
      have haround : table.around number = some outer := by
        rw [around, hscope]
        exact hparent
      have hlt : outer < number := hlinked number outer haround
      refine ih outer hlt (Nat.lt_trans hlt hnumber) ?_ fun h => houtside (.further haround h)
      rintro rfl
      exact houtside (.parent haround)

/-- The views of the scopes that are neither bound in nor inside the scope bound in do not change.
-/
theorem view_bind_of_not (hnumber : number < table.scopes.length) (hne : number ≠ target)
    (houtside : ¬table.Encloses target number) :
    (table.bind target name binding).view number = table.view number := by
  rw [view, view, frames_bind_of_not hlinked name binding hnumber hne houtside]

/-- What is bound in a scope is bound in its view. -/
theorem view_bind_self (htarget : target < table.scopes.length) :
    (table.bind target name binding).view target = (table.view target).bind name binding := by
  have hscope := List.getElem?_eq_getElem htarget
  have hbound : (table.bind target name binding).scopes[target]? =
      some ⟨(name, some binding) :: table.scopes[target].own, table.scopes[target].parent⟩ := by
    rw [bind, List.getElem?_modify, hscope]
    simp
  rw [view_eq hlinked.bind hbound, view_eq hlinked hscope, Scope.bind]
  congr 1
  cases hparent : table.scopes[target].parent with
  | none => rfl
  | some outer =>
    have hlt : outer < target := hlinked target outer (by rw [around, hscope]; exact hparent)
    exact frames_bind_of_not hlinked name binding (Nat.lt_trans hlt htarget) (Nat.ne_of_lt hlt)
      fun h => Nat.lt_asymm hlt (h.lt hlinked)

/-- A copy with one more binding has the view of the original with that binding. -/
theorem view_withBinding (hnumber : number < table.scopes.length) :
    (table.withBinding number name binding).2.view (table.withBinding number name binding).1 =
      (table.view number).bind name binding := by
  have hcloned : (table.clone number).2.Linked := hlinked.perform (subject_clone hnumber)
  rw [withBinding, view_bind_self hcloned name binding (lt_clone hnumber),
    view_clone hlinked hnumber]

end Binding

/-! ## 4. Operations, and any number of them -/

/-- An operation changes no view but, when it binds, those of the scope that it binds in and of the
scopes inside it. -/
theorem view_perform {operation : ScopeOperation} (hlinked : table.Linked)
    (hsubject : ∀ number ∈ operation.subject, number < table.scopes.length)
    (hnumber : number < table.scopes.length)
    (hother : ∀ target name binding, operation = .bind target name binding →
      number ≠ target ∧ ¬table.Encloses target number) :
    (table.perform operation).view number = table.view number := by
  obtain ⟨own, parent, hadd, -, hparent⟩ | ⟨target, name, binding, rfl, -⟩ :=
    perform_cases hlinked hsubject
  · rw [hadd, view_add hlinked hparent own hnumber]
  · obtain ⟨hne, houtside⟩ := hother target name binding rfl
    exact view_bind_of_not hlinked name binding hnumber hne houtside

/-- The view of a scope stays until something is bound in it or in a scope around it. -/
theorem view_after {later : List ScopeOperation} (hlinked : table.Linked)
    (hlater : table.Allows later) (hnumber : number < table.scopes.length)
    (hother : ∀ target name binding, .bind target name binding ∈ later →
      number ≠ target ∧ ¬table.Encloses target number) :
    (table.after later).view number = table.view number := by
  -- what is around the scope now was around it at first, so no operation of the session meets it
  refine (after_keeps
    (P := fun now => number < now.scopes.length ∧
      (∀ outer, now.Encloses outer number → table.Encloses outer number) ∧
      now.view number = table.view number)
    (fun operation hmem now hnow hsubject ⟨hlt, hencloses, hview⟩ => ⟨?_, ?_, ?_⟩) hlinked hlater
    ⟨hnumber, fun _ h => h, rfl⟩).2.2.2
  · exact Nat.lt_of_lt_of_le hlt (length_perform hnow hsubject)
  · exact fun outer h => hencloses outer (encloses_perform hnow hsubject hlt h)
  · refine (view_perform hnow hsubject hlt ?_).trans hview
    rintro target name binding rfl
    obtain ⟨hne, houtside⟩ := hother target name binding hmem
    exact ⟨hne, fun h => houtside (hencloses target h)⟩

end Table

/-- **Shared scopes are the scopes of walks.** After any session, what a scope of the table says is
what its view says; making, copying and binding scopes are the operations of `Scope` on their views;
and a scope that is there keeps its view through any further session that binds only in other
scopes, none of them around it. A session that binds only in scopes that it makes is of that kind
for every scope there is. -/
theorem views_after {session : List ScopeOperation} (hsession : empty.Allows session) :
    let table := empty.after session
    (∀ number name, (table.view number).lookup name = table.lookup number name) ∧
    (∀ entries, (table.root entries).2.view (table.root entries).1 = .root entries) ∧
    ∀ number < table.scopes.length,
      (∀ entries, (table.child number entries).2.view (table.child number entries).1 =
        (table.view number).push entries) ∧
      (∀ name previous,
        (table.resolving number name previous).2.view (table.resolving number name previous).1 =
          (table.view number).push (resolvingFrame name previous)) ∧
      (table.clone number).2.view (table.clone number).1 = table.view number ∧
      (∀ name binding,
        (table.withBinding number name binding).2.view (table.withBinding number name binding).1 =
          (table.view number).bind name binding) ∧
      (∀ name binding,
        (table.bind number name binding).view number = (table.view number).bind name binding) ∧
      ∀ later, table.Allows later →
        ((∀ target name binding, .bind target name binding ∈ later →
            number ≠ target ∧ ¬table.Encloses target number) →
          (table.after later).view number = table.view number) ∧
        ((∀ target name binding, .bind target name binding ∈ later →
            table.scopes.length ≤ target) →
          (table.after later).view number = table.view number) := by
  intro table
  have hlinked : table.Linked := linked_after hsession
  refine ⟨lookup_view hlinked, view_add_self hlinked nofun, fun number hnumber =>
    ⟨view_child hlinked hnumber, fun name previous => view_child hlinked hnumber _,
      view_clone hlinked hnumber, fun name binding => view_withBinding hlinked name binding hnumber,
      fun name binding => view_bind_self hlinked name binding hnumber, fun later hlater =>
      ⟨view_after hlinked hlater hnumber, fun hmade => ?_⟩⟩⟩
  refine view_after hlinked hlater hnumber fun target name binding hmem => ?_
  have hlt : number < target := Nat.lt_of_lt_of_le hnumber (hmade target name binding hmem)
  exact ⟨Nat.ne_of_lt hlt, fun h => Nat.lt_asymm hlt (h.lt hlinked)⟩

end ScopeTable

end PromptTemplate
