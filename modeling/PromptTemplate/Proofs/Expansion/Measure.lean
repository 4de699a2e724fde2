/-
`Measure.lean` -- how deep rendering can go into itself.

The reading of a variable goes on with a command that is no part of the present one, so the
size of a tree does not bound how deep its rendering goes. What bounds it is the size of the
tree together with that of all commands in reach through variables, each with the bindings
that it replaced. Reading a variable takes its command out of this sum, because inside it the
name stands for what it stood for before; and binding a variable moves a command of the tree
into it (`Scope.cost_bind`, `Scope.cost_resolving`). The options of a variant count as often
as they can be picked, for every pick may bind anew.
-/
import Mathlib.Algebra.BigOperators.Group.Finset.Basic
import Mathlib.Algebra.Order.BigOperators.Group.List
import PromptTemplate.Proofs.Command.Everywhere
import PromptTemplate.Proofs.Expansion.Draws

set_option autoImplicit false

namespace PromptTemplate

/-! ## 1. Trees -/

namespace Command

/-- How often a part of the node can be rendered; never is counted as once. -/
def picks : Command → Nat
  | .variant _ _ least most _ _ => mostDrawn least most
  | _ => 1

theorem one_le_picks (command : Command) : 1 ≤ command.picks := by
  cases command with
  | variant label options least most separator sampling =>
    rw [picks, mostDrawn]
    omega
  | _ => exact Nat.le_refl 1

/-- The number of nodes of a tree, the options of a variant as often as they can be picked. -/
def cost (command : Command) : Nat :=
  1 + command.picks * (command.parts.attach.map fun part => cost part.1).sum
termination_by sizeOf command
decreasing_by exact sizeOf_lt_of_mem_parts part.2

/-- What it takes to render some commands one after another. -/
def totalCost (commands : List Command) : Nat := (commands.map cost).sum

theorem cost_eq (command : Command) :
    command.cost = 1 + command.picks * totalCost command.parts := by
  rw [cost, List.attach_map_val (f := cost), totalCost]

theorem cost_variant (label : Label) (options : List (Weighted Command)) (least most : Nat)
    (separator : Text) (sampling : Option Sampling) :
    (variant label options least most separator sampling).cost =
      1 + mostDrawn least most * totalCost (options.map (·.value)) := cost_eq _

@[simp] theorem totalCost_nil : totalCost [] = 0 := rfl

@[simp] theorem totalCost_cons (command : Command) (commands : List Command) :
    totalCost (command :: commands) = command.cost + totalCost commands := by
  simp only [totalCost, List.map_cons, List.sum_cons]

theorem totalCost_singleton (command : Command) : totalCost [command] = command.cost := by
  rw [totalCost_cons, totalCost_nil, Nat.add_zero]

/-- Some of the commands take no more than all of them. -/
theorem totalCost_le_of_subperm {commands others : List Command} (h : commands.Subperm others) :
    totalCost commands ≤ totalCost others := by
  obtain ⟨middle, hperm, hsub⟩ := h
  rw [totalCost, ← (hperm.map cost).sum_eq]
  exact (hsub.map cost).sum_le_sum fun _ _ => Nat.zero_le _

/-- The parts of a node take less than the node. -/
theorem totalCost_parts_lt (command : Command) : totalCost command.parts < command.cost := by
  rw [cost_eq]
  have := Nat.mul_le_mul_right (totalCost command.parts) command.one_le_picks
  omega

end Command

/-! ## 2. Scopes -/

/-- The cost of the command of a binding and of all bindings that it replaced. -/
def Binding.cost : Binding → Nat
  | .evaluated _ => 0
  | .deferred command none => command.cost
  | .deferred command (some previous) => command.cost + previous.cost

/-- The cost of a name that may be bound. -/
def bindingCost (binding : Option Binding) : Nat := binding.elim 0 Binding.cost

theorem Binding.cost_deferred (command : Command) (previous : Option Binding) :
    (Binding.deferred command previous).cost = command.cost + bindingCost previous := by
  cases previous with
  | none => rw [cost, bindingCost, Option.elim_none, Nat.add_zero]
  | some binding => rw [cost, bindingCost, Option.elim_some]

/-- A name without an entry in any frame is not bound. -/
theorem lookupIn_eq_none {name : Text} {frames : List Frame}
    (h : name ∉ frames.flatten.map (·.1)) : lookupIn name frames = none := by
  induction frames with
  | nil => rfl
  | cons frame frames ih =>
    rw [List.flatten_cons, List.map_append, List.mem_append, not_or] at h
    have hframe : frame.lookup name = none := by
      rw [List.lookup_eq_none_iff]
      intro entry hentry
      rw [bne_iff_ne]
      rintro rfl
      exact h.1 (List.mem_map_of_mem hentry)
    rw [lookupIn, hframe]
    exact ih h.2

namespace Scope

variable {scope before after : Scope} {name : Text}

/-- The names that have an entry. -/
def names (scope : Scope) : Finset Text :=
  ((scope.own :: scope.parents).flatten.map (·.1)).toFinset

/-- The cost of everything in reach through variables. -/
def cost (scope : Scope) : Nat := ∑ name ∈ scope.names, bindingCost (scope.lookup name)

theorem lookup_eq_none (h : name ∉ scope.names) : scope.lookup name = none :=
  lookupIn_eq_none fun hmem => h (List.mem_toFinset.2 hmem)

/-- Names without an entry cost nothing, so more of them can be counted. -/
theorem cost_eq_sum {names : Finset Text} (h : scope.names ⊆ names) :
    scope.cost = ∑ name ∈ names, bindingCost (scope.lookup name) :=
  Finset.sum_subset h fun name _ hname => by rw [lookup_eq_none hname]; rfl

/-- Scopes that answer all names but one alike differ in cost by what that name costs. -/
theorem cost_add (h : ∀ other, other ≠ name → after.lookup other = before.lookup other) :
    after.cost + bindingCost (before.lookup name) =
      before.cost + bindingCost (after.lookup name) := by
  have hmem : name ∈ insert name (before.names ∪ after.names) := Finset.mem_insert_self _ _
  have hbefore : before.names ⊆ insert name (before.names ∪ after.names) :=
    Finset.subset_union_left.trans (Finset.subset_insert _ _)
  have hafter : after.names ⊆ insert name (before.names ∪ after.names) :=
    Finset.subset_union_right.trans (Finset.subset_insert _ _)
  rw [cost_eq_sum hbefore, cost_eq_sum hafter, ← Finset.sum_erase_add _ _ hmem,
    ← Finset.sum_erase_add _ _ hmem]
  have hrest : ∀ other ∈ (insert name (before.names ∪ after.names)).erase name,
      bindingCost (after.lookup other) = bindingCost (before.lookup other) := fun other hother => by
    rw [h other (Finset.ne_of_mem_erase hother)]
  rw [Finset.sum_congr rfl hrest]
  omega

/-- Binding a name puts the cost of the binding in place of what the name cost. -/
theorem cost_bind (scope : Scope) (name : Text) (binding : Binding) :
    (scope.bind name binding).cost + bindingCost (scope.lookup name) =
      scope.cost + binding.cost := by
  have hother : ∀ other, other ≠ name →
      (scope.bind name binding).lookup other = scope.lookup other := fun other hne => by
    rw [lookup_bind, if_neg hne]
  have hsum := cost_add hother
  rwa [lookup_bind, if_pos rfl] at hsum

/-- Where the binding of a name renders, its own command is out of reach. -/
theorem cost_resolving {command : Command} {previous : Option Binding}
    (h : scope.lookup name = some (.deferred command previous)) :
    command.cost + (scope.push (resolvingFrame name previous)).cost = scope.cost := by
  have hother : ∀ other, other ≠ name →
      (scope.push (resolvingFrame name previous)).lookup other = scope.lookup other := by
    intro other hne
    rw [lookup_resolving, if_neg hne]
  have hname : (scope.push (resolvingFrame name previous)).lookup name = previous := by
    rw [lookup_resolving, if_pos rfl]
  have hsum := cost_add hother
  rw [hname, h, bindingCost, Option.elim_some, Binding.cost_deferred] at hsum
  omega

end Scope

end PromptTemplate
