/-
`SharedScopes.lean` -- scopes that read through to each other and are changed one at a time.

A scope of the table has entries of its own and may have a scope around it, made before it
(`ScopeTable.Linked`). What a scope says of a name is what the first scope on the way out says that
has an entry, and an entry without a binding ends the way as well. So making scopes changes nothing
that can be read, and a binding is seen by exactly the scopes from which the way to it is free
(`ScopeTable.ReadsThrough`). Both are said of one operation and then of any number of them: what a
scope reads stays as long as nothing is bound in it or around it.
-/
import PromptTemplate.Expansion.ScopeTable

set_option autoImplicit false

namespace PromptTemplate

/-! ## 1. Sessions -/

/-- What can be done with the scopes of a table. -/
inductive ScopeOperation
  | root (entries : Frame)
  | child (number : Nat) (entries : Frame)
  | clone (number : Nat)
  | withBinding (number : Nat) (name : Text) (binding : Binding)
  | bind (number : Nat) (name : Text) (binding : Binding)
  | resolving (number : Nat) (name : Text) (previous : Option Binding)

/-- The scope that an operation is done on, unless it makes one of its own. -/
def ScopeOperation.subject : ScopeOperation → Option Nat
  | root _ => none
  | child number _ | clone number | withBinding number _ _ | bind number _ _
  | resolving number _ _ => some number

namespace ScopeTable

/-- The table after an operation. -/
def perform (table : ScopeTable) : ScopeOperation → ScopeTable
  | .root entries => (table.root entries).2
  | .child number entries => (table.child number entries).2
  | .clone number => (table.clone number).2
  | .withBinding number name binding => (table.withBinding number name binding).2
  | .bind number name binding => table.bind number name binding
  | .resolving number name previous => (table.resolving number name previous).2

/-- The table after operations one after another. -/
def after (table : ScopeTable) (operations : List ScopeOperation) : ScopeTable :=
  operations.foldl perform table

/-- Every operation is done on a scope that was made before. -/
def Allows : ScopeTable → List ScopeOperation → Prop
  | _, [] => True
  | table, operation :: operations =>
    (∀ number ∈ operation.subject, number < table.scopes.length) ∧
      (table.perform operation).Allows operations

/-! ## 2. Entries and the scopes around -/

/-- What a scope itself says of a name. -/
def entry (table : ScopeTable) (number : Nat) (name : Text) : Option (Option Binding) :=
  (table.scopes[number]?).bind fun scope => scope.own.lookup name

/-- The scope around a scope. -/
def around (table : ScopeTable) (number : Nat) : Option Nat :=
  (table.scopes[number]?).bind (·.parent)

/-- The scope around a scope was made before it. -/
def Linked (table : ScopeTable) : Prop :=
  ∀ number outer, table.around number = some outer → outer < number

/-- One scope is around another one, directly or with others between them. -/
inductive Encloses (table : ScopeTable) (outer : Nat) : Nat → Prop
  | parent {number : Nat} : table.around number = some outer → Encloses table outer number
  | further {number between : Nat} : table.around number = some between →
    Encloses table outer between →
    Encloses table outer number

/-- A scope reads a name through to the target: it is the target, or it has no entry for the name, a
mask not excepted, and the scope around it reads through. -/
inductive ReadsThrough (table : ScopeTable) (name : Text) (target : Nat) : Nat → Prop
  | here : ReadsThrough table name target target
  | further {number outer : Nat} : table.entry number name = none → table.around number =
    some outer →
    ReadsThrough table name target outer → ReadsThrough table name target number

section Table

variable {table : ScopeTable} {number target outer : Nat} {name other : Text} {binding : Binding}

/-- What is read through to is the scope itself or around it. -/
theorem ReadsThrough.encloses (h : table.ReadsThrough name target number) :
    number = target ∨ table.Encloses target number := by
  induction h with
  | here => exact .inl rfl
  | further _ haround _ ih =>
    rcases ih with rfl | ih
    · exact .inr (.parent haround)
    · exact .inr (.further haround ih)

/-- What is around a scope was made before it. -/
theorem Encloses.lt (hlinked : table.Linked) (h : table.Encloses outer number) :
    outer < number := by
  induction h with
  | parent haround => exact hlinked _ _ haround
  | further haround _ ih => exact Nat.lt_trans ih (hlinked _ _ haround)

/-- A scope with a scope around it was made. -/
theorem lt_of_around (h : table.around number = some outer) : number < table.scopes.length := by
  obtain ⟨scope, hscope, -⟩ := Option.bind_eq_some_iff.1 h
  exact (List.getElem?_eq_some_iff.1 hscope).1

/-- What a scope says of a name is its entry, or what the scope around it says. -/
theorem lookup_eq (hlinked : table.Linked) (number : Nat) (name : Text) :
    table.lookup number name =
      (table.entry number name).getD ((table.around number).bind fun outer =>
        table.lookup outer name) := by
  rw [lookup]
  -- a number without a scope has neither entries nor a parent, and finds nothing
  cases hscope : table.scopes[number]? with
  | none => simp [entry, around, hscope]
  | some scope =>
    have hentry : table.entry number name = scope.own.lookup name := by rw [entry, hscope]; rfl
    have haround : table.around number = scope.parent := by rw [around, hscope]; rfl
    rw [hentry, haround]
    dsimp only
    cases scope.own.lookup name with
    | some found => rfl
    | none =>
      cases hparent : scope.parent with
      | none => rfl
      | some outer => exact if_pos (hlinked number outer (haround.trans hparent))

/-- An entry is what the scope says. -/
theorem lookup_of_entry (hlinked : table.Linked) {found : Option Binding}
    (h : table.entry number name = some found) :
    table.lookup number name = found := by
  rw [lookup_eq hlinked, h]
  rfl

/-- Without an entry the scope around it says what there is. -/
theorem lookup_of_around (hlinked : table.Linked) (h : table.entry number name = none)
    (haround : table.around number = some outer) :
    table.lookup number name = table.lookup outer name := by
  rw [lookup_eq hlinked, h, haround]
  rfl

/-! ## 3. Binding -/

/-- Binding leaves every scope where it is. -/
theorem around_bind (table : ScopeTable) (target : Nat) (name : Text) (binding : Binding)
    (number : Nat) :
    (table.bind target name binding).around number = table.around number := by
  rw [around, around, bind, List.getElem?_modify]
  cases table.scopes[number]? with
  | none => rfl
  | some scope => by_cases h : target = number <;> simp [h]

/-- What is bound is the entry of the scope. -/
theorem entry_bind_self (htarget : target < table.scopes.length) :
    (table.bind target name binding).entry target name = some (some binding) := by
  rw [entry, bind, List.getElem?_modify, List.getElem?_eq_getElem htarget]
  simp

/-- Other scopes and other names keep their entries. -/
theorem entry_bind_of_ne (h : ¬(number = target ∧ other = name)) :
    (table.bind target name binding).entry number other = table.entry number other := by
  rw [entry, entry, bind, List.getElem?_modify]
  cases table.scopes[number]? with
  | none => rfl
  | some scope =>
    by_cases htarget : target = number
    · have hother : (other == name) = false := beq_false_of_ne fun hother =>
        h ⟨htarget.symm, hother⟩
      simp [htarget, List.lookup_cons, hother]
    · simp [htarget]

/-- Binding keeps every scope behind the one around it. -/
theorem Linked.bind (hlinked : table.Linked) : (table.bind target name binding).Linked := by
  intro number outer haround
  rw [around_bind] at haround
  exact hlinked number outer haround

/-- Whoever reads through to a scope reads what is bound there. -/
theorem lookup_bind_of_readsThrough (hlinked : table.Linked)
    (htarget : target < table.scopes.length) (h : table.ReadsThrough name target number) :
    (table.bind target name binding).lookup number name = some binding := by
  have hbound : (table.bind target name binding).Linked := hlinked.bind
  induction h with
  | here => exact lookup_of_entry hbound (entry_bind_self htarget)
  | @further number outer hentry haround hthrough ih =>
    by_cases hnumber : number = target
    · exact hnumber ▸ lookup_of_entry hbound (entry_bind_self htarget)
    · rw [lookup_of_around hbound ((entry_bind_of_ne fun h => hnumber h.1).trans hentry)
        ((around_bind ..).trans haround), ih]

/-- Nothing else is changed by a binding. The induction is on the number of the scope, which falls
on the way out. -/
theorem lookup_bind_of_not (hlinked : table.Linked)
    (h : ¬(other = name ∧ table.ReadsThrough name target number)) :
    (table.bind target name binding).lookup number other = table.lookup number other := by
  induction number using Nat.strongRecOn with
  | ind number ih =>
    have hentry : (table.bind target name binding).entry number other = table.entry number other :=
      entry_bind_of_ne fun ⟨hnumber, hother⟩ => h ⟨hother, hnumber ▸ .here⟩
    -- the entry of the scope itself is unchanged, and its parent is as far
    -- from the target as it is
    rw [lookup_eq hlinked.bind, lookup_eq hlinked, hentry, around_bind]
    cases hown : table.entry number other with
    | some found => rfl
    | none =>
      cases haround : table.around number with
      | none => rfl
      | some outer =>
        refine ih outer (hlinked number outer haround) fun ⟨hother, hthrough⟩ => h ⟨hother, ?_⟩
        exact .further (hother ▸ hown) haround hthrough

/-! ## 4. Making scopes -/

section Adding

variable (own : Frame) (parent : Option Nat)

/-- The scopes that are there stay when another one is made. -/
theorem getElem?_add (hnumber : number < table.scopes.length) :
    (table.add own parent).2.scopes[number]? = table.scopes[number]? :=
  List.getElem?_append_left hnumber

/-- They keep their entries. -/
theorem entry_add (hnumber : number < table.scopes.length) (name : Text) :
    (table.add own parent).2.entry number name = table.entry number name := by
  rw [entry, entry, getElem?_add own parent hnumber]

/-- They stay where they are. -/
theorem around_add (hnumber : number < table.scopes.length) :
    (table.add own parent).2.around number = table.around number := by
  rw [around, around, getElem?_add own parent hnumber]

/-- The new scope has the entries that it is made with. -/
theorem entry_add_self (table : ScopeTable) (name : Text) :
    (table.add own parent).2.entry (table.add own parent).1 name = own.lookup name := by
  simp [entry, add]

/-- It is in the scope that it is made in. -/
theorem around_add_self (table : ScopeTable) :
    (table.add own parent).2.around (table.add own parent).1 = parent := by
  simp [around, add]

/-- It is behind the scope around it, which was made before. -/
theorem Linked.add (hlinked : table.Linked)
    (hparent : ∀ outer ∈ parent, outer < table.scopes.length) :
    (table.add own parent).2.Linked := by
  intro number outer haround
  have hlength : number < table.scopes.length + 1 := by
    simpa [ScopeTable.add] using lt_of_around haround
  rcases Nat.lt_or_eq_of_le (Nat.le_of_lt_succ hlength) with hnumber | rfl
  · rw [around_add own parent hnumber] at haround
    exact hlinked number outer haround
  · exact hparent outer ((around_add_self own parent table).symm.trans haround)

/-- The scopes that are there read what they did, whatever is around them. -/
theorem lookup_add (hlinked : table.Linked)
    (hparent : ∀ outer ∈ parent, outer < table.scopes.length)
    (hnumber : number < table.scopes.length) (name : Text) :
    (table.add own parent).2.lookup number name = table.lookup number name := by
  induction number using Nat.strongRecOn with
  | ind number ih =>
    rw [lookup_eq (hlinked.add own parent hparent), lookup_eq hlinked, entry_add own parent hnumber,
      around_add own parent hnumber]
    congr 1
    cases haround : table.around number with
    | none => rfl
    | some outer =>
      have hlt := hlinked number outer haround
      exact ih outer hlt (Nat.lt_trans hlt hnumber)

end Adding

/-- A copy has the entries of the original, and is in the same scope. -/
theorem clone_eq (hnumber : number < table.scopes.length) : ∃ own parent,
    table.clone number = table.add own parent ∧
      (∀ name, own.lookup name = table.entry number name) ∧
      parent = table.around number := by
  refine ⟨table.scopes[number].own, table.scopes[number].parent, ?_, fun name => ?_, ?_⟩
  · rw [clone, List.getElem?_eq_getElem hnumber]
  · rw [entry, List.getElem?_eq_getElem hnumber]
    rfl
  · rw [around, List.getElem?_eq_getElem hnumber]
    rfl

/-- A copy is the last scope. -/
theorem lt_clone (hnumber : number < table.scopes.length) :
    (table.clone number).1 < (table.clone number).2.scopes.length := by
  obtain ⟨own, parent, hclone, -⟩ := clone_eq hnumber
  simp [hclone, add]

/-- A copy is made of a scope that is there. -/
theorem subject_clone (hnumber : number < table.scopes.length) :
    ∀ other ∈ (ScopeOperation.clone number).subject, other < table.scopes.length :=
  fun _ hother => Option.some_inj.1 hother ▸ hnumber

/-- Around a scope that is there is one that is there. -/
theorem lt_of_mem_around (hlinked : table.Linked) (hnumber : number < table.scopes.length) :
    ∀ outer ∈ table.around number, outer < table.scopes.length := by
  intro outer haround
  exact Nat.lt_trans (hlinked number outer haround) hnumber

/-- Binding in the scope made last is making it with the binding. -/
theorem bind_add (table : ScopeTable) (own : Frame) (parent : Option Nat) (name : Text)
    (binding : Binding) :
    (table.add own parent).2.bind table.scopes.length name binding =
      (table.add ((name, some binding) :: own) parent).2 := by
  have hlast : table.scopes.length < (table.scopes ++ [(⟨own, parent⟩ : TableScope)]).length := by
    rw [List.length_append]
    exact Nat.lt_succ_self _
  simp [bind, add, List.modify_eq_take_cons_drop hlast]

/-! ## 5. One operation -/

/-- An operation makes a scope, which is in one that is there or in none, or binds a name in a scope
that is there. -/
theorem perform_cases (hlinked : table.Linked) {operation : ScopeOperation}
    (hsubject : ∀ number ∈ operation.subject, number < table.scopes.length) :
    (∃ own parent, table.perform operation = (table.add own parent).2 ∧
      (∀ number name binding, operation ≠ .bind number name binding) ∧
      ∀ outer ∈ parent, outer < table.scopes.length) ∨
    ∃ number name binding, operation = .bind number name binding ∧
      number < table.scopes.length := by
  -- every operation but a binding adds one scope behind the others
  cases operation with
  | root entries => exact .inl ⟨entries, none, rfl, nofun, nofun⟩
  | child number entries =>
    exact .inl ⟨entries, some number, rfl, nofun, fun outer houter => hsubject outer houter⟩
  | clone number =>
    obtain ⟨own, parent, hclone, -, rfl⟩ := clone_eq (hsubject number rfl)
    exact .inl ⟨own, _, congrArg Prod.snd hclone, nofun,
      lt_of_mem_around hlinked (hsubject number rfl)⟩
  | withBinding number name binding =>
    obtain ⟨own, parent, hclone, -, rfl⟩ := clone_eq (hsubject number rfl)
    refine .inl ⟨(name, some binding) :: own, _, ?_, nofun,
      lt_of_mem_around hlinked (hsubject number rfl)⟩
    rw [perform, withBinding, hclone]
    exact bind_add ..
  | bind number name binding => exact .inr ⟨number, name, binding, rfl, hsubject number rfl⟩
  | resolving number name previous =>
    exact .inl ⟨_, some number, rfl, nofun, fun outer houter => hsubject outer houter⟩

section Step

variable {operation : ScopeOperation} (hlinked : table.Linked)
  (hsubject : ∀ number ∈ operation.subject, number < table.scopes.length)
include hlinked hsubject

/-- No operation puts a scope before the one around it. -/
theorem Linked.perform : (table.perform operation).Linked := by
  obtain ⟨own, parent, hadd, -, hparent⟩ | ⟨target, name, binding, rfl, -⟩ :=
    perform_cases hlinked hsubject
  · exact hadd ▸ hlinked.add own parent hparent
  · exact hlinked.bind

/-- No operation takes a scope away. -/
theorem length_perform : table.scopes.length ≤ (table.perform operation).scopes.length := by
  obtain ⟨own, parent, hadd, -⟩ | ⟨target, name, binding, rfl, -⟩ := perform_cases hlinked hsubject
  · rw [hadd, add, List.length_append]
    exact Nat.le_add_right _ _
  · exact Nat.le_of_eq (List.length_modify ..).symm

variable (hnumber : number < table.scopes.length)
include hnumber

/-- No operation puts a scope elsewhere. -/
theorem around_perform : (table.perform operation).around number = table.around number := by
  obtain ⟨own, parent, hadd, -⟩ | ⟨target, name, binding, rfl, -⟩ := perform_cases hlinked hsubject
  · rw [hadd, around_add own parent hnumber]
  · exact around_bind ..

/-- An entry changes only by binding its name in the scope itself. -/
theorem entry_perform (hother : ∀ binding, operation ≠ .bind number name binding) :
    (table.perform operation).entry number name = table.entry number name := by
  obtain ⟨own, parent, hadd, -⟩ | ⟨target, bound, binding, rfl, -⟩ := perform_cases hlinked hsubject
  · rw [hadd, entry_add own parent hnumber]
  · refine entry_bind_of_ne ?_
    rintro ⟨rfl, rfl⟩
    exact hother binding rfl

/-- What a scope reads is changed only by a binding that it reads through to. -/
theorem lookup_perform
    (hother : ∀ target binding, operation = .bind target name binding →
      ¬table.ReadsThrough name target number) :
    (table.perform operation).lookup number name = table.lookup number name := by
  obtain ⟨own, parent, hadd, -, hparent⟩ | ⟨target, bound, binding, rfl, -⟩ :=
    perform_cases hlinked hsubject
  · rw [hadd, lookup_add own parent hlinked hparent hnumber]
  · refine lookup_bind_of_not hlinked ?_
    rintro ⟨rfl, hthrough⟩
    exact hother target binding rfl hthrough

/-- What is around a scope was around it before. -/
theorem encloses_perform (h : (table.perform operation).Encloses outer number) :
    table.Encloses outer number := by
  induction h with
  | parent haround => exact .parent ((around_perform hlinked hsubject hnumber).symm.trans haround)
  | further haround _ ih =>
    rw [around_perform hlinked hsubject hnumber] at haround
    exact .further haround (ih (Nat.lt_trans (hlinked _ _ haround) hnumber))

end Step

end Table

/-! ## 6. Any number of operations -/

/-- What every operation on a linked table keeps, all of them one after another keep. -/
theorem after_keeps {P : ScopeTable → Prop} {operations : List ScopeOperation}
    (hstep : ∀ operation ∈ operations, ∀ table : ScopeTable, table.Linked →
      (∀ number ∈ operation.subject, number < table.scopes.length) → P table →
      P (table.perform operation))
    {table : ScopeTable} (hlinked : table.Linked) (hallows : table.Allows operations)
    (h : P table) :
    (table.after operations).Linked ∧ P (table.after operations) := by
  induction operations generalizing table with
  | nil => exact ⟨hlinked, h⟩
  | cons operation operations ih =>
    obtain ⟨hsubject, hrest⟩ := hallows
    refine ih (fun other hother => hstep other (List.mem_cons_of_mem _ hother))
      (hlinked.perform hsubject) hrest ?_
    exact hstep operation List.mem_cons_self table hlinked hsubject h

/-- There is no scope yet, so none is before the one around it. -/
theorem linked_empty : empty.Linked := by
  intro number outer haround
  exact absurd (lt_of_around haround) (Nat.not_lt_zero number)

/-- In a session that begins with nothing every scope is behind the one around it. -/
theorem linked_after {operations : List ScopeOperation} (hallows : empty.Allows operations) :
    (empty.after operations).Linked :=
  (after_keeps (P := fun _ => True) (fun _ _ _ _ _ h => h) linked_empty hallows trivial).1

section Session

variable {table : ScopeTable} {number : Nat} {name : Text} {later : List ScopeOperation}
  (hlinked : table.Linked) (hlater : table.Allows later) (hnumber : number < table.scopes.length)
include hlinked hlater hnumber

/-- A scope stays in the scope that it was made in. -/
theorem around_after :
    (table.after later).Linked ∧ (table.after later).around number = table.around number := by
  have hkept := after_keeps (P := fun now => number < now.scopes.length ∧
    now.around number = table.around number)
    (fun operation _ now hnow hsubject ⟨hlt, haround⟩ =>
      ⟨Nat.lt_of_lt_of_le hlt (length_perform hnow hsubject),
      (around_perform hnow hsubject hlt).trans haround⟩) hlinked hlater ⟨hnumber, rfl⟩
  exact ⟨hkept.1, hkept.2.2⟩

/-- An entry stays until its name is bound in the scope itself. -/
theorem entry_after (hother : ∀ binding, .bind number name binding ∉ later) :
    (table.after later).entry number name = table.entry number name := by
  refine (after_keeps
    (P := fun now => number < now.scopes.length ∧ now.entry number name = table.entry number name)
    (fun operation hmem now hnow hsubject ⟨hlt, hentry⟩ => ⟨?_, ?_⟩) hlinked hlater
    ⟨hnumber, rfl⟩).2.2
  · exact Nat.lt_of_lt_of_le hlt (length_perform hnow hsubject)
  · refine (entry_perform hnow hsubject hlt ?_).trans hentry
    rintro binding rfl
    exact hother binding hmem

/-- What a scope reads stays until the name is bound in the scope itself or around it. -/
theorem lookup_after (hother : ∀ target binding, .bind target name binding ∈ later →
      number ≠ target ∧ ¬table.Encloses target number) :
    (table.after later).lookup number name = table.lookup number name := by
  refine (after_keeps
    (P := fun now => number < now.scopes.length ∧ (∀ outer, now.Encloses outer number →
      table.Encloses outer number) ∧
      now.lookup number name = table.lookup number name)
    (fun operation hmem now hnow hsubject ⟨hlt, hencloses, hlookup⟩ => ⟨?_, ?_, ?_⟩) hlinked hlater
    -- what holds while the session goes on: the scope is there, inside no
    -- new ones, and answers alike
    ⟨hnumber, fun _ h => h, rfl⟩).2.2.2
  · exact Nat.lt_of_lt_of_le hlt (length_perform hnow hsubject)
  · exact fun outer h => hencloses outer (encloses_perform hnow hsubject hlt h)
  · refine (lookup_perform hnow hsubject hlt ?_).trans hlookup
    rintro target binding rfl hthrough
    obtain ⟨hne, hfree⟩ := hother target binding hmem
    rcases hthrough.encloses with heq | h
    · exact hne heq
    · exact hfree (hencloses target h)

end Session

/-! ## 7. Scopes inside others, and copies -/

section Made

variable {table : ScopeTable} {number : Nat} {later : List ScopeOperation} (hlinked : table.Linked)
  (hnumber : number < table.scopes.length)
include hlinked hnumber

/-- A scope made inside another one reads its own entry, or goes on reading through to that one, as
long as the name is not bound in it. -/
theorem lookup_child_after (entries : Frame) (hlater : (table.child number entries).2.Allows later)
    (name : Text) (hother : ∀ binding, .bind (table.child number entries).1 name binding ∉ later) :
    ((table.child number entries).2.after later).lookup (table.child number entries).1 name =
      (entries.lookup name).getD (((table.child number entries).2.after later).lookup
        number name) := by
  have hmade : (table.child number entries).2.Linked :=
    hlinked.add entries (some number) fun outer houter => Option.some_inj.1 houter ▸ hnumber
  have hlast : (table.child number entries).1 < (table.child number entries).2.scopes.length := by
    simp [child, add]
  obtain ⟨hnow, haround⟩ := around_after hmade hlater hlast
  have hentry := entry_after hmade hlater hlast hother
  rw [lookup_eq hnow, haround, hentry]
  rw [child, entry_add_self, around_add_self]
  rfl

/-- A copy reads what the original does. -/
theorem lookup_clone (name : Text) :
    (table.clone number).2.lookup (table.clone number).1 name = table.lookup number name := by
  have hcloned : (table.clone number).2.Linked := hlinked.perform (subject_clone hnumber)
  obtain ⟨own, _, hclone, hown, rfl⟩ := clone_eq hnumber
  rw [hclone] at hcloned ⊢
  rw [lookup_eq hcloned, lookup_eq hlinked, entry_add_self, around_add_self, hown]
  congr 1
  cases haround : table.around number with
  | none => rfl
  | some outer =>
    refine lookup_add own _ hlinked ?_ (Nat.lt_trans (hlinked number outer haround) hnumber) name
    exact haround ▸ lt_of_mem_around hlinked hnumber

/-- A copy with one more binding reads that, and the rest as the original does. -/
theorem lookup_withBinding (name : Text) (binding : Binding) :
    (table.withBinding number name binding).2.lookup (table.withBinding number name binding).1
      name = some binding ∧
      ∀ other, other ≠ name → (table.withBinding number name binding).2.lookup
        (table.withBinding number name binding).1 other = table.lookup number other := by
  have hcloned : (table.clone number).2.Linked := hlinked.perform (subject_clone hnumber)
  refine ⟨lookup_bind_of_readsThrough hcloned (lt_clone hnumber) .here, fun other hne => ?_⟩
  exact (lookup_bind_of_not hcloned fun h => hne h.1).trans (lookup_clone hlinked hnumber other)

/-- Around a copy are the scopes that are around the original. -/
theorem encloses_of_clone {outer : Nat}
    (h : (table.clone number).2.Encloses outer (table.clone number).1) :
    table.Encloses outer number := by
  have haround : (table.clone number).2.around (table.clone number).1 = table.around number := by
    obtain ⟨own, _, hclone, -, rfl⟩ := clone_eq hnumber
    rw [hclone, around_add_self]
  cases h with
  | parent hparent => exact .parent (haround.symm.trans hparent)
  | further hparent h =>
    rw [haround] at hparent
    refine .further hparent (encloses_perform hlinked (subject_clone hnumber) ?_ h)
    exact Nat.lt_trans (hlinked number _ hparent) hnumber

/-- What a copy reads changes only by binding in it or in a scope around the original. -/
theorem exists_bind_of_lookup_clone_ne (hlater : (table.clone number).2.Allows later) {name : Text}
    (hchanged : ((table.clone number).2.after later).lookup (table.clone number).1 name ≠
      table.lookup number name) :
    ∃ target binding, .bind target name binding ∈ later ∧
      (target = (table.clone number).1 ∨ table.Encloses target number) := by
  have hcloned : (table.clone number).2.Linked := hlinked.perform (subject_clone hnumber)
  refine Classical.byContradiction fun hnone => hchanged ?_
  rw [← lookup_clone hlinked hnumber]
  refine lookup_after hcloned hlater (lt_clone hnumber) fun target binding hmem =>
    ⟨fun heq => hnone ?_, fun h => hnone ?_⟩
  · exact ⟨target, binding, hmem, .inl heq.symm⟩
  · exact ⟨target, binding, hmem, .inr (encloses_of_clone hlinked hnumber h)⟩

end Made

/-- **Scopes are copies of their own that read through.** After any session: making a scope changes
no look-up of another one. What is bound in a scope is read by it and by the scopes that read the
name through to it, and no other look-up changes. A copy reads as the original did, but for a
binding that it is made with, until a name is bound in the copy or in a scope around the original.
In a scope that resolves a name, the name reads as the earlier binding and every other one as in the
scope around, whatever is bound elsewhere later. -/
theorem scopes_isolated {session : List ScopeOperation} (hsession : empty.Allows session) :
    let table := empty.after session
    (∀ operation : ScopeOperation, (∀ number ∈ operation.subject, number < table.scopes.length) →
      (∀ number name binding, operation ≠ .bind number name binding) →
      ∀ number < table.scopes.length, ∀ name,
        (table.perform operation).lookup number name = table.lookup number name) ∧
    (∀ target < table.scopes.length, ∀ name binding,
      (table.bind target name binding).lookup target name = some binding ∧
      (∀ number, table.ReadsThrough name target number →
        (table.bind target name binding).lookup number name = some binding) ∧
      ∀ number other,
        (table.bind target name binding).lookup number other ≠ table.lookup number other →
        other = name ∧ table.ReadsThrough name target number) ∧
    (∀ number < table.scopes.length,
      (∀ name,
        (table.clone number).2.lookup (table.clone number).1 name = table.lookup number name) ∧
      (∀ name binding,
        (table.withBinding number name binding).2.lookup
          (table.withBinding number name binding).1 name = some binding ∧
        ∀ other, other ≠ name → (table.withBinding number name binding).2.lookup
          (table.withBinding number name binding).1 other = table.lookup number other) ∧
      ∀ later, (table.clone number).2.Allows later → ∀ name,
        ((table.clone number).2.after later).lookup (table.clone number).1 name ≠
          table.lookup number name →
        ∃ target binding, .bind target name binding ∈ later ∧
          (target = (table.clone number).1 ∨ table.Encloses target number)) ∧
    ∀ number < table.scopes.length, ∀ name previous,
      let made := table.resolving number name previous
      ∀ later, made.2.Allows later →
        ((∀ binding, .bind made.1 name binding ∉ later) →
          (made.2.after later).lookup made.1 name = previous) ∧
        ∀ other, other ≠ name → (∀ binding, .bind made.1 other binding ∉ later) →
          (made.2.after later).lookup made.1 other = (made.2.after later).lookup number other := by
  have hlinked := linked_after hsession
  refine ⟨fun operation hsubject hmakes number hnumber name => ?_,
    fun target htarget name binding => ⟨?_, ?_, ?_⟩,
    fun number hnumber => ⟨lookup_clone hlinked hnumber, lookup_withBinding hlinked hnumber, ?_⟩,
    fun number hnumber name previous later hlater => ⟨fun hother => ?_, fun other hne hother => ?_⟩⟩
  · exact lookup_perform hlinked hsubject hnumber fun target binding hbind =>
      absurd hbind (hmakes _ _ _)
  · exact lookup_bind_of_readsThrough hlinked htarget .here
  · exact fun number => lookup_bind_of_readsThrough hlinked htarget
  · intro number other hchanged
    exact Classical.byContradiction fun hnot => hchanged (lookup_bind_of_not hlinked hnot)
  · intro later hlater name hchanged
    exact exists_bind_of_lookup_clone_ne hlinked hnumber hlater hchanged
  · have hfound : (resolvingFrame name previous).lookup name = some previous :=
      List.lookup_cons_self
    exact (lookup_child_after hlinked hnumber _ hlater name hother).trans (by rw [hfound]; rfl)
  · have hnone : (resolvingFrame name previous).lookup other = none := by
      rw [resolvingFrame, List.lookup_cons, beq_false_of_ne hne]
      rfl
    exact (lookup_child_after hlinked hnumber _ hlater other hother).trans (by rw [hnone]; rfl)

/-- A root that binds a name, a scope inside it, and inside that one a scope that masks the name. -/
def maskedSession : List ScopeOperation :=
  [.root [(units "mood", some (.evaluated (units "calm")))], .child 0 [],
    .resolving 1 (units "mood") none]

/-- What is bound in the root is read through the scope in it and not through the mask; a copy of
that scope can not be reached from the scope itself; and the mask stays when the root binds its
name. -/
theorem scopes_isolated_of_masked :
    let table := empty.after maskedSession
    let mood := units "mood"
    let wild : Binding := .evaluated (units "wild")
    let resolved := table.resolving 1 mood none
    empty.Allows maskedSession ∧ 2 < table.scopes.length ∧
      (table.ReadsThrough mood 0 1 ∧ (table.bind 0 mood wild).lookup 1 mood = some wild) ∧
      (table.bind 0 mood wild).lookup 2 mood = table.lookup 2 mood ∧
      ((table.clone 1).2.Allows [.bind 1 mood wild] ∧
        ((table.clone 1).2.after [.bind 1 mood wild]).lookup 3 mood = table.lookup 1 mood) ∧
      resolved.2.Allows [.bind 0 mood wild] ∧ (resolved.2.after [.bind 0 mood wild]).lookup 3 mood =
        none := by
  intro table mood wild resolved
  have hsession : empty.Allows maskedSession :=
    ⟨nofun, fun _ h => Option.some_inj.1 h ▸ Nat.zero_lt_one,
      fun _ h => Option.some_inj.1 h ▸ Nat.one_lt_two, trivial⟩
  obtain ⟨-, hbind, hclone, hresolving⟩ := scopes_isolated hsession
  have hthrough : table.ReadsThrough mood 0 1 := .further (by decide) rfl .here
  have hcopy : (table.clone 1).2.Allows [.bind 1 mood wild] :=
    ⟨fun _ h => Option.some_inj.1 h ▸ (by decide), trivial⟩
  have hlater : resolved.2.Allows [.bind 0 mood wild] :=
    ⟨fun _ h => Option.some_inj.1 h ▸ (by decide), trivial⟩
  refine ⟨hsession, by decide, ⟨hthrough, (hbind 0 (by decide) mood wild).2.1 1 hthrough⟩, ?_,
    ⟨hcopy, ?_⟩, hlater, ?_⟩
  · refine Classical.byContradiction fun hchanged => ?_
    -- the mask is an entry, so nothing is read through it
    cases ((hbind 0 (by decide) mood wild).2.2 2 mood hchanged).2 with
    | further hentry _ _ => exact absurd hentry (by decide)
  · refine Classical.byContradiction fun hchanged => ?_
    obtain ⟨target, binding, hmem, houter⟩ := (hclone 1 (by decide)).2.2 _ hcopy mood hchanged
    obtain rfl : target = 1 :=
      Option.some_inj.1 (congrArg ScopeOperation.subject (List.mem_singleton.1 hmem))
    rcases houter with hcopied | houter
    · exact absurd hcopied (by decide)
    · exact absurd (houter.lt (linked_after hsession)) (Nat.lt_irrefl _)
  · refine (hresolving 1 (by decide) mood none _ hlater).1 fun binding hmem => ?_
    have htarget : 3 = 0 :=
      Option.some_inj.1 (congrArg ScopeOperation.subject (List.mem_singleton.1 hmem))
    exact absurd htarget (by decide)

end ScopeTable

end PromptTemplate
