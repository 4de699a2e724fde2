/-
`Paired.lean` -- two trees side by side.

Trees that differ in few places are compared node by node. Two nodes are paired if they are of
one kind and say the same of themselves, so that they differ at most in what is right below;
`Command.Paired` also lists the pairs of their parts. One place put in another's stead is then a
way down from pair to pair, with the same parts on both sides of the way (`Command.Replaced`), and
any number of such places is a congruence (`Command.Exchanged`). A binding follows the command
that it keeps, and scopes are compared by what they answer.
-/
import PromptTemplate.Proofs.Command.Everywhere

set_option autoImplicit false

namespace PromptTemplate

/-! ## 1. Parts changed in place -/

section Maps

variable {α β : Type}

/-- An option with another value. -/
def Weighted.map (f : α → β) (option : Weighted α) : Weighted β := ⟨option.weight, f option.value⟩

/-- A branch with another value. -/
def Guarded.map (f : α → β) (branch : Guarded α) : Guarded β := ⟨branch.guard, f branch.value⟩

/-- The name of a wildcard, rendered by another command. -/
def WildcardName.map (f : α → β) : WildcardName α → WildcardName β
  | .fixed name => .fixed name
  | .rendered command => .rendered (f command)

theorem WildcardName.parts_map (f : α → β) (name : WildcardName α) :
    (name.map f).parts = name.parts.map f := by
  cases name <;> rfl

/-- Changing every member and changing it back. -/
theorem map_map_of_inverse {f : α → β} {g : β → α} (h : ∀ b, f (g b) = b) (l : List β) :
    (l.map g).map f = l := by
  rw [List.map_map]
  exact List.map_id'' h l

end Maps

namespace Command

/-! ## 2. Nodes -/

/-- The nodes are of one kind and say the same of themselves, and these are the pairs of their
parts. -/
inductive Paired : Command → Command → List (Command × Command) → Prop
  | literal (text : Text) : Paired (.literal text) (.literal text) []
  | comment (text : Text) : Paired (.comment text) (.comment text) []
  | sequence (children : List (Command × Command)) :
    Paired (.sequence (children.map Prod.fst)) (.sequence (children.map Prod.snd)) children
  | variant (label : Label) (options : List (Weighted (Command × Command))) (least most : Nat)
      (separator : Text) (sampling : Option Sampling) :
    Paired (.variant label (options.map (·.map Prod.fst)) least most separator sampling)
      (.variant label (options.map (·.map Prod.snd)) least most separator sampling)
      (options.map (·.value))
  | wildcard (label : Label) (name : WildcardName (Command × Command))
      (inlined : List (Text × Command × Command)) (sampling : Option Sampling) :
    Paired (.wildcard label (name.map Prod.fst) (inlined.map fun v => (v.1, v.2.1)) sampling)
      (.wildcard label (name.map Prod.snd) (inlined.map fun v => (v.1, v.2.2)) sampling)
      (name.parts ++ inlined.map Prod.snd)
  | wrap (wrapper inner : Command × Command) :
    Paired (.wrap wrapper.1 inner.1) (.wrap wrapper.2 inner.2) [wrapper, inner]
  | probability (label : Label) (chance : Rat) (value : Command × Command)
      (sampling : Option Sampling) :
    Paired (.probability label chance value.1 sampling) (.probability label chance value.2 sampling)
      [value]
  | condition (branches : List (Guarded (Command × Command))) (otherwise : Command × Command) :
    Paired (.condition (branches.map (·.map Prod.fst)) otherwise.1)
      (.condition (branches.map (·.map Prod.snd)) otherwise.2)
      (branches.map (·.value) ++ [otherwise])
  | access (name : Text) (fallback : Option (Command × Command)) :
    Paired (.access name (fallback.map Prod.fst)) (.access name (fallback.map Prod.snd))
      fallback.toList
  | assignment (name : Text) (value : Command × Command) (overwrite immediate : Bool) :
    Paired (.assignment name value.1 overwrite immediate)
      (.assignment name value.2 overwrite immediate) [value]

namespace Paired

variable {command other : Command} {pairs more : List (Command × Command)}

/-- The pairs are made of the parts of both nodes. -/
theorem parts (h : command.Paired other pairs) :
    pairs.map Prod.fst = command.parts ∧ pairs.map Prod.snd = other.parts := by
  cases h with
  | literal text => exact ⟨rfl, rfl⟩
  | comment text => exact ⟨rfl, rfl⟩
  | sequence children => exact ⟨rfl, rfl⟩
  | variant label options least most separator sampling =>
    simp only [Command.parts, List.map_map]
    exact ⟨rfl, rfl⟩
  | wildcard label name inlined sampling =>
    simp only [Command.parts, List.map_append, List.map_map, WildcardName.parts_map]
    exact ⟨rfl, rfl⟩
  | wrap wrapper inner => exact ⟨rfl, rfl⟩
  | probability label chance value sampling => exact ⟨rfl, rfl⟩
  | condition branches otherwise =>
    simp only [Command.parts, List.map_append, List.map_map]
    exact ⟨rfl, rfl⟩
  | access name fallback => cases fallback <;> exact ⟨rfl, rfl⟩
  | assignment name value overwrite immediate => exact ⟨rfl, rfl⟩

theorem unique (h : command.Paired other pairs) (h' : command.Paired other more) :
    pairs = more :=
  (List.zip_of_prod h.parts.1 h.parts.2).trans (List.zip_of_prod h'.parts.1 h'.parts.2).symm

/-- Every node is paired with itself. -/
theorem refl (command : Command) :
    command.Paired command (command.parts.map fun part => (part, part)) := by
  -- each list of pairs is the list doubled, and taking either half of it gives the list back
  cases command with
  | literal text => exact .literal text
  | comment text => exact .comment text
  | sequence children =>
    have h := sequence (children.map fun part => (part, part))
    rw [map_map_of_inverse fun _ => by rfl, map_map_of_inverse fun _ => by rfl] at h
    exact h
  | variant label options least most separator sampling =>
    have h :=
      variant label (options.map (·.map fun part => (part, part))) least most separator sampling
    rw [map_map_of_inverse fun _ => by rfl, map_map_of_inverse fun _ => by rfl, List.map_map] at h
    rw [Command.parts, List.map_map]
    exact h
  | wildcard label name inlined sampling =>
    have h := wildcard label (name.map fun part => (part, part))
      (inlined.map fun v => (v.1, v.2, v.2)) sampling
    have hname : ∀ f : Command × Command → Command, (∀ part, f (part, part) = part) →
        (name.map fun part => (part, part)).map f = name := by
      intro f hf
      cases name with
      | fixed name => rfl
      | rendered command => exact congrArg WildcardName.rendered (hf command)
    rw [hname Prod.fst fun _ => rfl, hname Prod.snd fun _ => rfl,
      map_map_of_inverse fun _ => by rfl, map_map_of_inverse fun _ => by rfl, List.map_map] at h
    rw [Command.parts, List.map_append, List.map_map, ← WildcardName.parts_map]
    exact h
  | wrap wrapper inner => exact .wrap (wrapper, wrapper) (inner, inner)
  | probability label chance value sampling =>
    exact .probability label chance (value, value) sampling
  | condition branches otherwise =>
    have h := condition (branches.map (·.map fun part => (part, part))) (otherwise, otherwise)
    rw [map_map_of_inverse fun _ => by rfl, map_map_of_inverse fun _ => by rfl, List.map_map] at h
    rw [Command.parts, List.map_append, List.map_map]
    exact h
  | access name fallback =>
    cases fallback with
    | none => exact .access name none
    | some fallback => exact .access name (some (fallback, fallback))
  | assignment name value overwrite immediate =>
    exact .assignment name (value, value) overwrite immediate

/-- Paired with itself, a node has its own parts on both sides. -/
theorem eq_of_self (h : command.Paired command pairs) : ∀ pair ∈ pairs, pair.1 = pair.2 := by
  rw [h.unique (refl command)]
  intro pair hmem
  obtain ⟨part, -, rfl⟩ := List.mem_map.1 hmem
  rfl

theorem fst_mem (h : command.Paired other pairs) {pair : Command × Command} (hmem : pair ∈ pairs) :
    pair.1 ∈ command.parts := by
  rw [← h.parts.1]
  exact List.mem_map_of_mem hmem

end Paired

/-! ## 3. Trees -/

/-- One node of a tree is put in another's stead. All other nodes have the property, those around
it and those beside the way to it. -/
inductive Replaced (p : Command → Prop) (swap : Command → Command → Prop) : Command → Command → Prop
  | here {command other : Command} (hswap : swap command other) : Replaced p swap command other
  | inside {command other part stead : Command} {before behind : List (Command × Command)}
      (hcommand : p command) (hpaired : command.Paired other (before ++ (part, stead) :: behind))
      (hbeside : ∀ pair ∈ before ++ behind, pair.1 = pair.2 ∧ pair.1.Everywhere p)
      (hpart : Replaced p swap part stead) : Replaced p swap command other

/-- Any number of nodes are put in others' stead. -/
inductive Exchanged (swap : Command → Command → Prop) : Command → Command → Prop
  | here {command other : Command} (hswap : swap command other) : Exchanged swap command other
  | inside {command other : Command} {pairs : List (Command × Command)}
      (hpaired : command.Paired other pairs)
      (hparts : ∀ pair ∈ pairs, Exchanged swap pair.1 pair.2) :
      Exchanged swap command other

section Trees

variable {p : Command → Prop} {swap : Command → Command → Prop} {command other : Command}

theorem Exchanged.refl (swap : Command → Command → Prop) (command : Command) :
    command.Exchanged swap command := by
  induction everywhere_of_forall (fun _ => trivial) command with
  | node command _ _ ih =>
    refine .inside (.refl command) fun pair hmem => ?_
    obtain ⟨part, hpart, rfl⟩ := List.mem_map.1 hmem
    exact ih part hpart

theorem Replaced.exchanged (h : command.Replaced p swap other) : command.Exchanged swap other := by
  induction h with
  | here hswap => exact .here hswap
  | inside _ hpaired hbeside _ ih =>
    refine .inside hpaired fun pair hmem => ?_
    rcases List.mem_append.1 hmem with hmem | hmem
    · rw [← (hbeside pair (List.mem_append_left _ hmem)).1]
      exact .refl swap _
    · rcases List.mem_cons.1 hmem with rfl | hmem
      · exact ih
      · rw [← (hbeside pair (List.mem_append_right _ hmem)).1]
        exact .refl swap _

/-- If the nodes that are put elsewhere have a property everywhere, so has the whole tree. -/
theorem Replaced.everywhere (h : command.Replaced p swap other)
    (hswap : ∀ {a b : Command}, swap a b → a.Everywhere p) : command.Everywhere p := by
  induction h with
  | here h => exact hswap h
  | inside hcommand hpaired hbeside _ ih =>
    refine .node _ hcommand fun part hmem => ?_
    rw [← hpaired.parts.1] at hmem
    obtain ⟨pair, hpair, rfl⟩ := List.mem_map.1 hmem
    rcases List.mem_append.1 hpair with hpair | hpair
    · exact (hbeside pair (List.mem_append_left _ hpair)).2
    · rcases List.mem_cons.1 hpair with rfl | hpair
      · exact ih
      · exact (hbeside pair (List.mem_append_right _ hpair)).2

end Trees

end Command

/-! ## 4. Bindings and scopes -/

/-- In the commands that the bindings keep, any number of nodes are put in others' stead, in those
that they replaced as well. -/
inductive Binding.Exchanged (swap : Command → Command → Prop) : Binding → Binding → Prop
  | evaluated (text : Text) : Exchanged swap (.evaluated text) (.evaluated text)
  | first {command other : Command} (hcommand : command.Exchanged swap other) :
    Exchanged swap (.deferred command none) (.deferred other none)
  | again {command other : Command} {earlier previous : Binding}
      (hcommand : command.Exchanged swap other) (hearlier : Exchanged swap earlier previous) :
      Exchanged swap (.deferred command (some earlier)) (.deferred other (some previous))

/-- The scopes answer every name alike, up to nodes that are put in others' stead. -/
def Scope.Exchanged (swap : Command → Command → Prop) (a b : Scope) : Prop :=
  ∀ name, Option.Rel (Binding.Exchanged swap) (a.lookup name) (b.lookup name)

theorem Binding.Exchanged.refl (swap : Command → Command → Prop) :
    ∀ binding : Binding, binding.Exchanged swap binding
  | .evaluated text => .evaluated text
  | .deferred command none => .first (.refl swap command)
  | .deferred command (some earlier) => .again (.refl swap command) (refl swap earlier)

theorem Binding.Exchanged.deferred {swap : Command → Command → Prop} {command other : Command}
    (hcommand : command.Exchanged swap other) {earlier previous : Option Binding}
    (hearlier : Option.Rel (Binding.Exchanged swap) earlier previous) :
    (Binding.deferred command earlier).Exchanged swap (.deferred other previous) := by
  cases hearlier with
  | none => exact .first hcommand
  | some h => exact .again hcommand h

/-- The same answer on both sides. -/
theorem Binding.exchanged_self (swap : Command → Command → Prop) (binding : Option Binding) :
    Option.Rel (Binding.Exchanged swap) binding binding := by
  cases binding with
  | none => exact .none
  | some binding => exact .some (.refl swap binding)

namespace Scope.Exchanged

variable {swap : Command → Command → Prop} {a b : Scope}

theorem of_agrees (swap : Command → Command → Prop) (h : a.Agrees b) : a.Exchanged swap b := by
  intro name
  rw [← h name]
  exact Binding.exchanged_self swap _

theorem bind (h : a.Exchanged swap b) {mine yours : Binding} (hbinding : mine.Exchanged swap yours)
    (name : Text) : (a.bind name mine).Exchanged swap (b.bind name yours) := by
  intro other
  rw [lookup_bind, lookup_bind]
  split
  · exact .some hbinding
  · exact h other

theorem resolving (h : a.Exchanged swap b) {earlier previous : Option Binding}
    (hearlier : Option.Rel (Binding.Exchanged swap) earlier previous) (name : Text) :
    (a.push (resolvingFrame name earlier)).Exchanged swap
      (b.push (resolvingFrame name previous)) := by
  intro other
  rw [lookup_resolving, lookup_resolving]
  split
  · exact hearlier
  · exact h other

theorem inlining (h : a.Exchanged swap b) {inlined : List (Text × Command × Command)}
    (hinlined : ∀ v ∈ inlined, v.2.1.Exchanged swap v.2.2) :
    (a.push (inlineFrame a (inlined.map fun v => (v.1, v.2.1)))).Exchanged swap
      (b.push (inlineFrame b (inlined.map fun v => (v.1, v.2.2)))) := by
  intro name
  rw [lookup_inlining, lookup_inlining, inlinedValue_map, inlinedValue_map]
  cases hvalue : inlinedValue name inlined with
  | none => exact h name
  | some value => exact .some (.deferred (hinlined _ (mem_of_inlinedValue hvalue)) (h name))

end Scope.Exchanged

end PromptTemplate
