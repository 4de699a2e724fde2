/-
`Everywhere.lean` -- properties of all nodes of a tree.

A tree holds other trees in lists, in options and in records, so an induction over
its constructors runs through five types. Most statements about trees need no such
induction: they say something of every node, and a proof steps from a node to the
nodes right below it. `Command.parts` names those, `Command.Everywhere` closes a
property under them, and `Binding.Everywhere` carries it over to what a variable
stands for, the bindings that it replaced included.
-/
import PromptTemplate.Expansion.Scope

set_option autoImplicit false

namespace PromptTemplate

/-! ## 1. The nodes of a tree -/

/-- The command that renders the name of a wildcard, if its name is rendered. -/
def WildcardName.parts {α : Type} : WildcardName α → List α
  | .fixed _ => []
  | .rendered command => [command]

namespace Command

/-- The nodes right below a node. -/
def parts : Command → List Command
  | .literal _ | .comment _ => []
  | .sequence children => children
  | .variant _ options _ _ _ _ => options.map (·.value)
  | .wildcard _ name inlined _ => name.parts ++ inlined.map (·.2)
  | .wrap wrapper inner => [wrapper, inner]
  | .probability _ _ value _ => [value]
  | .condition branches otherwise => branches.map (·.value) ++ [otherwise]
  | .access _ fallback => fallback.toList
  | .assignment _ value _ _ => [value]

/-- A part is smaller than its node. -/
theorem sizeOf_lt_of_mem_parts {command part : Command} (h : part ∈ command.parts) :
    sizeOf part < sizeOf command := by
  -- parts behind a record or in a pair are smaller than the record, and it than the list
  cases command with
  | literal text => cases h
  | comment text => cases h
  | sequence children =>
    have := List.sizeOf_lt_of_mem (show part ∈ children from h)
    simp only [sequence.sizeOf_spec]
    omega
  | variant label options least most separator sampling =>
    obtain ⟨⟨weight, value⟩, hoption, rfl⟩ := List.mem_map.1 h
    have := List.sizeOf_lt_of_mem hoption
    simp only [variant.sizeOf_spec, Weighted.mk.sizeOf_spec] at this ⊢
    omega
  | wildcard label name inlined sampling =>
    rcases List.mem_append.1 h with h | h
    · cases name with
      | fixed name => cases h
      | rendered command =>
        rw [List.mem_singleton.1 h]
        simp only [wildcard.sizeOf_spec, WildcardName.rendered.sizeOf_spec]
        omega
    · obtain ⟨⟨name, value⟩, hv, rfl⟩ := List.mem_map.1 h
      have := List.sizeOf_lt_of_mem hv
      simp only [wildcard.sizeOf_spec, Prod.mk.sizeOf_spec] at this ⊢
      omega
  | wrap wrapper inner =>
    simp only [parts, List.mem_cons, List.not_mem_nil, or_false] at h
    rcases h with rfl | rfl <;> simp only [wrap.sizeOf_spec] <;> omega
  | probability label chance value sampling =>
    rw [List.mem_singleton.1 h]
    simp only [probability.sizeOf_spec]
    omega
  | condition branches otherwise =>
    rcases List.mem_append.1 h with h | h
    · obtain ⟨⟨guard, value⟩, hbranch, rfl⟩ := List.mem_map.1 h
      have := List.sizeOf_lt_of_mem hbranch
      simp only [condition.sizeOf_spec, Guarded.mk.sizeOf_spec] at this ⊢
      omega
    · rw [List.mem_singleton.1 h]
      simp only [condition.sizeOf_spec]
      omega
  | access name fallback =>
    rw [Option.mem_toList.1 h]
    simp only [access.sizeOf_spec, Option.some.sizeOf_spec]
    omega
  | assignment name value overwrite immediate =>
    rw [List.mem_singleton.1 h]
    simp only [assignment.sizeOf_spec]
    omega

/-- Every node of a tree has the property. -/
inductive Everywhere (p : Command → Prop) : Command → Prop
  | node (command : Command) (here : p command)
      (below : ∀ part ∈ command.parts, Everywhere p part) : Everywhere p command

namespace Everywhere

variable {p q : Command → Prop} {command : Command}

/-- What holds everywhere holds of the node itself. -/
theorem here (h : command.Everywhere p) : p command := by
  cases h with
  | node _ here _ => exact here

/-- It holds everywhere in the parts. -/
theorem of_part (h : command.Everywhere p) {part : Command} (hpart : part ∈ command.parts) :
    part.Everywhere p := by
  cases h with
  | node _ _ below => exact below part hpart

/-- A weaker property holds everywhere as well. -/
theorem mono (himp : ∀ c, p c → q c) (h : command.Everywhere p) : command.Everywhere q := by
  induction h with
  | node c here _ ih => exact .node c (himp c here) ih

/-- Two properties hold everywhere if each does. -/
theorem and (h : command.Everywhere p) (h' : command.Everywhere q) :
    command.Everywhere fun c => p c ∧ q c := by
  induction h with
  | node c here _ ih =>
    exact .node c ⟨here, h'.here⟩ fun part hmem => ih part hmem (h'.of_part hmem)

end Everywhere

/-- A property holds everywhere if it holds of the node and everywhere in its parts. -/
theorem everywhere_iff {p : Command → Prop} {command : Command} :
    command.Everywhere p ↔ p command ∧ ∀ part ∈ command.parts, part.Everywhere p :=
  ⟨fun h => ⟨h.here, fun _ => h.of_part⟩, fun h => .node command h.1 h.2⟩

/-- Every node has a property that everything has. -/
theorem everywhere_of_forall {p : Command → Prop} (h : ∀ c, p c) (command : Command) :
    command.Everywhere p := by
  refine .node command (h command) fun part hmem => ?_
  have := sizeOf_lt_of_mem_parts hmem
  exact everywhere_of_forall h part
termination_by sizeOf command

/-- Looks at every node of a tree. -/
def all (p : Command → Bool) (command : Command) : Bool :=
  p command && command.parts.attach.all fun part => all p part.1
termination_by sizeOf command
decreasing_by exact sizeOf_lt_of_mem_parts part.2

/-- The check of all nodes is the property everywhere. -/
theorem all_iff {p : Command → Bool} (command : Command) :
    all p command = true ↔ command.Everywhere (p · = true) := by
  rw [all, everywhere_iff, Bool.and_eq_true, List.all_eq_true]
  refine and_congr_right fun _ => ⟨fun h part hmem => ?_, fun h part _ => ?_⟩
  · have := sizeOf_lt_of_mem_parts hmem
    exact (all_iff part).1 (h ⟨part, hmem⟩ (List.mem_attach _ _))
  · have := sizeOf_lt_of_mem_parts part.2
    exact (all_iff part.1).2 (h part.1 part.2)
termination_by sizeOf command

instance (p : Command → Bool) (command : Command) : Decidable (command.Everywhere (p · = true)) :=
  decidable_of_iff _ (all_iff command)

/-- The tree is at most so many nodes deep. -/
def Within : (depth : Nat) → Command → Prop
  | 0, _ => False
  | depth + 1, command => ∀ part ∈ command.parts, part.Within depth

instance decidableWithin : (depth : Nat) → (command : Command) → Decidable (command.Within depth)
  | 0, _ => .isFalse id
  | depth + 1, command =>
    have := decidableWithin depth
    inferInstanceAs (Decidable (∀ part ∈ command.parts, part.Within depth))

/-! ## 2. Single nodes -/

/-- The label of a node that can rotate. -/
def label? : Command → Option Label
  | .variant label _ _ _ _ _ | .wildcard label _ _ _ | .probability label _ _ _ => some label
  | _ => none

/-- The method that a node declares for itself. -/
def declared : Command → Option Sampling
  | .variant _ _ _ _ _ sampling => sampling
  | .wildcard _ _ _ sampling => sampling
  | .probability _ _ _ sampling => sampling
  | _ => none

/-- The parts that a node which chooses nothing renders. A value that is to be rendered at each
reading is only kept. -/
def rendered : Command → List Command
  | .sequence children => children
  | .wrap wrapper inner => [wrapper, inner]
  | .condition branches otherwise => branches.map (·.value) ++ [otherwise]
  | .access _ fallback => fallback.toList
  | .assignment _ value _ immediate => if immediate then [value] else []
  | _ => []

/-- The names that a node reads. -/
def names : Command → List Text
  | .condition branches _ => branches.filterMap (·.guard.key)
  | .access name _ => [name]
  | _ => []

/-- The node binds no variable. -/
def BindsNothing : Command → Prop
  | .assignment _ _ _ _ => False
  | _ => True

end Command

/-! ## 3. Bindings and scopes -/

/-- Every node of every command that a binding keeps has the property, those of the
bindings that it replaced included. -/
inductive Binding.Everywhere (p : Command → Prop) : Binding → Prop
  | evaluated (text : Text) : Everywhere p (.evaluated text)
  | deferred (command : Command) (previous : Option Binding) (value : command.Everywhere p)
      (earlier : ∀ binding, previous = some binding → Everywhere p binding) :
    Everywhere p (.deferred command previous)

/-- The commands that a binding keeps: its own, and those of the bindings that it replaced. -/
inductive Binding.Holds : Binding → Command → Prop
  | value (command : Command) (previous : Option Binding) :
    Holds (.deferred command previous) command
  | replaced (command : Command) {previous : Binding} {value : Command}
    (h : Holds previous value) : Holds (.deferred command (some previous)) value

namespace Binding.Holds

variable {command value : Command}

/-- What a binding keeps is its own command, or kept by the binding that it replaced. -/
theorem deferred_cases {previous : Option Binding}
    (h : (Binding.deferred command previous).Holds value) :
    value = command ∨ ∃ binding, previous = some binding ∧ binding.Holds value := by
  cases h with
  | value => exact .inl rfl
  | replaced _ h => exact .inr ⟨_, rfl, h⟩

/-- A binding holds what the one holds that it replaced. -/
theorem earlier {binding : Binding} (h : binding.Holds value) :
    (Binding.deferred command (some binding)).Holds value := .replaced command h

end Binding.Holds

/-- If a property holds everywhere in what a binding holds, it holds everywhere in the binding. -/
theorem Binding.everywhere_of_holds {p : Command → Prop} :
    ∀ binding : Binding, (∀ value, binding.Holds value → value.Everywhere p) → binding.Everywhere p
  | .evaluated text, _ => .evaluated text
  | .deferred command none, h => .deferred command none (h command (.value command none)) nofun
  | .deferred command (some previous), h =>
    .deferred command (some previous) (h command (.value command _)) fun _ hprevious =>
      Option.some.inj hprevious ▸ everywhere_of_holds previous fun value hvalue =>
        h value hvalue.earlier

/-- A property of all nodes of a binding is one of all nodes of each command that it keeps. -/
theorem Binding.everywhere_iff {p : Command → Prop} {binding : Binding} :
    binding.Everywhere p ↔ ∀ value, binding.Holds value → value.Everywhere p := by
  refine ⟨fun h value hvalue => ?_, everywhere_of_holds binding⟩
  induction hvalue with
  | value command previous =>
    cases h with
    | deferred _ _ hvalue _ => exact hvalue
  | replaced command _ ih =>
    cases h with
    | deferred _ _ _ hearlier => exact ih (hearlier _ rfl)

section Inlined

variable {α β : Type}

/-- What a wildcard passes on under a name, if it does. -/
def inlinedValue (name : Text) (inlined : List (Text × α)) : Option α :=
  (inlined.filter fun v => v.1 != unboundName).lookup name

/-- The value of an inline variable was given under its name. -/
theorem mem_of_inlinedValue {name : Text} {inlined : List (Text × α)} {value : α}
    (h : inlinedValue name inlined = some value) : (name, value) ∈ inlined := by
  obtain ⟨before, after, heq, -⟩ := List.lookup_eq_some_iff.1 h
  have hmem : (name, value) ∈ inlined.filter fun v => v.1 != unboundName := by
    rw [heq]
    exact List.mem_append_right _ List.mem_cons_self
  exact (List.mem_filter.1 hmem).1

/-- Changing the values changes the value that is found. -/
theorem inlinedValue_map (f : α → β) (name : Text) (inlined : List (Text × α)) :
    inlinedValue name (inlined.map fun v => (v.1, f v.2)) = (inlinedValue name inlined).map f := by
  rw [inlinedValue, inlinedValue, List.filter_map]
  simp only [Function.comp_def]
  induction inlined.filter fun v => v.1 != unboundName with
  | nil => rfl
  | cons v inlined ih =>
    rw [List.map_cons, List.lookup_cons, List.lookup_cons]
    cases name == v.1 with
    | true => rfl
    | false => exact ih

end Inlined

namespace Scope

/-- Every node that is in reach through the variables of a scope has the property. -/
def Everywhere (p : Command → Prop) (scope : Scope) : Prop :=
  ∀ name binding, scope.lookup name = some binding → binding.Everywhere p

/-- Every command that a name may stand for in the scope is one that it may keep. -/
def Keeps (keeps : Text → Command → Prop) (scope : Scope) : Prop :=
  ∀ name binding, scope.lookup name = some binding → ∀ value, binding.Holds value → keeps name value

/-- Two scopes that answer every name alike. -/
def Agrees (a b : Scope) : Prop := ∀ name, a.lookup name = b.lookup name

/-- A scope agrees with itself. -/
theorem Agrees.refl (a : Scope) : a.Agrees a := fun _ => rfl

/-! ## 4. What the operations of a scope do to its answers -/

/-- What is bound is read, and every other name reads as before. -/
theorem lookup_bind (scope : Scope) (name : Text) (binding : Binding) (other : Text) :
    (scope.bind name binding).lookup other =
      if other = name then some binding else scope.lookup other := by
  simp only [bind, lookup, lookupIn, List.lookup_cons]
  by_cases h : other = name
  · simp only [h, beq_self_eq_true, if_true]
  · simp only [beq_false_of_ne h, if_neg h]

/-- A frame says what it has, and the scope behind it the rest. -/
theorem lookup_push (scope : Scope) (frame : Frame) (name : Text) :
    (scope.push frame).lookup name = (frame.lookup name).getD (scope.lookup name) := by
  simp only [push, lookup, lookupIn]
  cases frame.lookup name <;> rfl

/-- In a scope that resolves a name, the name reads as the earlier binding. -/
theorem lookup_resolving (scope : Scope) (name : Text) (previous : Option Binding) (other : Text) :
    (scope.push (resolvingFrame name previous)).lookup other =
      if other = name then previous else scope.lookup other := by
  rw [lookup_push, resolvingFrame, List.lookup_cons]
  by_cases h : other = name
  · rw [beq_iff_eq.2 h, if_pos h]
    rfl
  · rw [beq_false_of_ne h, if_neg h]
    rfl

/-- Inline variables read as their commands, each behind the binding of the caller. -/
theorem lookup_inlining (scope : Scope) (inlined : List (Text × Command)) (name : Text) :
    (scope.push (inlineFrame scope inlined)).lookup name =
      (inlinedValue name inlined).elim (scope.lookup name) fun command =>
        some (.deferred command (scope.lookup name)) := by
  rw [lookup_push, inlineFrame, inlinedValue]
  induction inlined.filter fun v => v.1 != unboundName with
  | nil => rfl
  | cons v inlined ih =>
    rw [List.map_cons, List.lookup_cons, List.lookup_cons]
    by_cases h : name = v.1
    · rw [beq_iff_eq.2 h, h]
      rfl
    · rw [beq_false_of_ne h]
      exact ih

/-- Leaving the scope inside another one restores that one, because a scope inside
never touches the frames around it. -/
theorem pop_of_parents_push {scope inner : Scope} {frame : Frame}
    (h : inner.parents = (scope.push frame).parents) : inner.pop = scope := by
  rw [pop, h]
  rfl

namespace Agrees

variable {a b : Scope}

/-- Scopes agree behind the same binding. -/
theorem bind (h : a.Agrees b) (name : Text) (binding : Binding) :
    (a.bind name binding).Agrees (b.bind name binding) := by
  intro other
  rw [lookup_bind, lookup_bind, h other]

/-- And behind the same frame. -/
theorem push (h : a.Agrees b) (frame : Frame) : (a.push frame).Agrees (b.push frame) := by
  intro name
  rw [lookup_push, lookup_push, h name]

/-- The inline variables of a wildcard keep the bindings of the scope that they are
made in, and nothing else of it. -/
theorem inlineFrame_eq (h : a.Agrees b) (inlined : List (Text × Command)) :
    inlineFrame a inlined = inlineFrame b inlined := by
  simp only [inlineFrame, h _]

end Agrees

namespace Keeps

variable {keeps : Text → Command → Prop} {scope : Scope} (h : scope.Keeps keeps)
include h

/-- Binding keeps what the new binding keeps. -/
theorem bind {name : Text} {binding : Binding}
    (hbinding : ∀ value, binding.Holds value → keeps name value) :
    (scope.bind name binding).Keeps keeps := by
  intro other found hfound
  rw [lookup_bind] at hfound
  split at hfound
  · next heq =>
    cases hfound
    exact heq ▸ hbinding
  · exact h other found hfound

/-- The scope in which a deferred binding renders holds the bindings around it and
the one that it replaced. -/
theorem resolving {name : Text} {command : Command} {previous : Option Binding}
    (hbinding : ∀ value, (Binding.deferred command previous).Holds value → keeps name value) :
    (scope.push (resolvingFrame name previous)).Keeps keeps := by
  intro other found hfound value hvalue
  rw [lookup_resolving] at hfound
  -- the name itself stands for what it was before, every other for what it is
  split at hfound
  · next heq =>
    subst hfound
    exact heq ▸ hbinding value hvalue.earlier
  · exact h other found hfound value hvalue

/-- The scope in which the candidate of a wildcard renders holds the wildcard's
inline variables and the bindings around it. -/
theorem inlining {inlined : List (Text × Command)} (hinlined : ∀ v ∈ inlined, keeps v.1 v.2) :
    (scope.push (inlineFrame scope inlined)).Keeps keeps := by
  intro name found hfound value hvalue
  rw [lookup_inlining] at hfound
  cases hinline : inlinedValue name inlined with
  | none =>
    rw [hinline] at hfound
    exact h name found hfound value hvalue
  | some command =>
    rw [hinline] at hfound
    cases hfound
    -- an inline variable keeps what the scope said of its name when it was made
    rcases hvalue.deferred_cases with rfl | ⟨binding, hbefore, hvalue⟩
    · exact hinlined _ (mem_of_inlinedValue hinline)
    · exact h name binding hbefore value hvalue

end Keeps

/-- No variable is bound in an empty scope. -/
theorem keeps_root (keeps : Text → Command → Prop) : (Scope.root []).Keeps keeps :=
  fun _ _ hlookup => nomatch hlookup

/-- Every node that is in reach has the property if those of each command in reach have it. -/
theorem everywhere_iff {p : Command → Prop} {scope : Scope} :
    scope.Everywhere p ↔ scope.Keeps fun _ value => value.Everywhere p :=
  forall₃_congr fun _ _ _ => Binding.everywhere_iff

/-- In an empty scope nothing is bound. -/
theorem everywhere_root (p : Command → Prop) : (Scope.root []).Everywhere p :=
  everywhere_iff.2 (keeps_root _)

namespace Everywhere

variable {p : Command → Prop} {scope : Scope}

/-- Binding what has the property everywhere. -/
theorem bind (h : scope.Everywhere p) {binding : Binding} (hbinding : binding.Everywhere p)
    (name : Text) : (scope.bind name binding).Everywhere p :=
  everywhere_iff.2 ((everywhere_iff.1 h).bind (Binding.everywhere_iff.1 hbinding))

/-- Resolving a binding that has it everywhere. -/
theorem resolving (h : scope.Everywhere p) (name : Text) {command : Command}
    {previous : Option Binding} (hbinding : (Binding.deferred command previous).Everywhere p) :
    (scope.push (resolvingFrame name previous)).Everywhere p :=
  everywhere_iff.2 ((everywhere_iff.1 h).resolving (Binding.everywhere_iff.1 hbinding))

/-- Inline variables that have it everywhere. -/
theorem inlining (h : scope.Everywhere p) {inlined : List (Text × Command)}
    (hinlined : ∀ v ∈ inlined, v.2.Everywhere p) :
    (scope.push (inlineFrame scope inlined)).Everywhere p :=
  everywhere_iff.2 ((everywhere_iff.1 h).inlining hinlined)

end Everywhere

end Scope

end PromptTemplate
