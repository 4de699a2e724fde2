/-
`ScopeTable.lean` -- scopes that are shared.

A scope keeps its own entries and reads through to the scope around it, which others
can share and go on changing. Scopes are kept in a table in the order in which they
are made, so the scope around a scope always comes before it. Making a scope never
changes another one; only binding does.
-/
import PromptTemplate.Expansion.Scope

set_option autoImplicit false

namespace PromptTemplate

/-- A scope of the table: its own entries, and the number of the scope around it. -/
structure TableScope where
  own : Frame
  parent : Option Nat

/-- Scopes by number. -/
structure ScopeTable where
  scopes : List TableScope

namespace ScopeTable

/-- No scope made yet. -/
def empty : ScopeTable := ⟨[]⟩

/-- What a scope says of a name. The scope around it has a smaller number. -/
def lookup (table : ScopeTable) (number : Nat) (name : Text) : Option Binding :=
  match table.scopes[number]? with
  | none => none
  | some scope =>
    match scope.own.lookup name with
    | some binding => binding
    | none =>
      match scope.parent with
      | none => none
      | some parent => if parent < number then lookup table parent name else none

/-- Whether a scope has a binding for a name. -/
def has (table : ScopeTable) (number : Nat) (name : Text) : Bool :=
  (table.lookup number name).isSome

/-- Adds a scope; its number is the number of scopes so far. -/
def add (table : ScopeTable) (own : Frame) (parent : Option Nat) : Nat × ScopeTable :=
  (table.scopes.length, ⟨table.scopes ++ [⟨own, parent⟩]⟩)

/-- A scope of its own. -/
def root (table : ScopeTable) (entries : Frame) : Nat × ScopeTable := table.add entries none

/-- A scope inside another one. -/
def child (table : ScopeTable) (number : Nat) (entries : Frame) : Nat × ScopeTable :=
  table.add entries (some number)

/-- A scope with the entries that another one has now. -/
def clone (table : ScopeTable) (number : Nat) : Nat × ScopeTable :=
  match table.scopes[number]? with
  | none => table.add [] none
  | some scope => table.add scope.own scope.parent

/-- Binds a name in a scope, for all that read through it. -/
def bind (table : ScopeTable) (number : Nat) (name : Text) (binding : Binding) : ScopeTable :=
  ⟨table.scopes.modify number fun scope => { scope with own := (name, some binding) :: scope.own }⟩

/-- A copy of a scope with one more binding. -/
def withBinding (table : ScopeTable) (number : Nat) (name : Text) (binding : Binding) :
    Nat × ScopeTable :=
  let (copy, table) := table.clone number
  (copy, table.bind copy name binding)

/-- The scope in which the deferred binding of a name renders. -/
def resolving (table : ScopeTable) (number : Nat) (name : Text) (previous : Option Binding) :
    Nat × ScopeTable :=
  table.child number (resolvingFrame name previous)

end ScopeTable

end PromptTemplate
