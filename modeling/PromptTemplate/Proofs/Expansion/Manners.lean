/-
`Manners.lean` -- which nodes rendering comes to, and by which methods.

A node is enumerated or walked, and the method of a walk is handed down from node to node
(`Manner`): a node that chooses applies its own method, if it declares one, and what it chooses
goes on with it. The name of a wildcard still has the method around the wildcard, its values have
the wildcard's own. What a variable stands for is rendered by the method of the node that reads
the variable, not of the one that binds it. A `Reach` is a set of nodes, each in its manner, that
is closed under these rules but for the values of wildcards; `Visited` is the least one that holds
a tree and is closed under the values as well.
-/
import PromptTemplate.Proofs.Expansion.Rules

set_option autoImplicit false

namespace PromptTemplate

/-! ## 1. Manners -/

/-- How a node is rendered: into all its branches, or by a walk with a method. -/
inductive Manner
  | enumerated
  | walked (method : Sampling)
  deriving DecidableEq, Repr

namespace Manner

/-- The method of a node that declares none. -/
def method : Manner → Sampling
  | enumerated => .combinatorial
  | walked method => method

/-- How a node with this method of its own is rendered: one that has to draw or to rotate is
walked also where the nodes around it are enumerated. -/
def under (declared : Option Sampling) : Manner → Manner
  | walked method => walked method
  | enumerated =>
    match declared with
    | none | some .combinatorial => enumerated
    | some method => walked method

/-- Only a method that is declared changes how a node is rendered. -/
theorem under_cases (declared : Option Sampling) (manner : Manner) :
    manner.under declared = manner ∨
      ∃ method, declared = some method ∧ manner.under declared = walked method := by
  cases manner with
  | walked method => exact .inl rfl
  | enumerated =>
    cases declared with
    | none => exact .inl rfl
    | some method =>
      cases method with
      | combinatorial => exact .inl rfl
      | random | cyclical => exact .inr ⟨_, rfl, rfl⟩

/-- How a node with this method of its own has rendered what it chooses. -/
def passed (declared : Option Sampling) (manner : Manner) : Manner :=
  match manner.under declared with
  | enumerated => enumerated
  | walked method => walked (declared.getD method).walked

theorem passed_walked (declared : Option Sampling) (method : Sampling) :
    (walked method).passed declared = walked (declared.getD method).walked := rfl

/-- Where a node is enumerated, so is what it chooses. -/
theorem passed_of_under {declared : Option Sampling} {manner : Manner}
    (h : manner.under declared = enumerated) : manner.passed declared = enumerated := by
  rw [passed, h]

end Manner

/-- How prompts are rendered when this method is asked for: exhausting enumerates. -/
def Sampling.manner : Sampling → Manner
  | combinatorial => .enumerated
  | method => .walked method

/-- What a node chooses from, but for the values of wildcards. -/
def Command.choices : Command → List Command
  | .variant _ options _ _ _ _ => options.map (·.value)
  | .probability _ _ value _ => [value]
  | _ => []

/-- A name that the wildcard can have: its own if that is fixed. -/
def WildcardName.Spells {α : Type} (name : WildcardName α) (wildcard : Text) : Prop :=
  ∀ own, name = .fixed own → wildcard = own

theorem Command.mem_parts_of_choices {command part : Command} (h : part ∈ command.choices) :
    part ∈ command.parts := by
  cases command with
  | variant | probability => exact h
  | _ => cases h

/-! ## 2. What is closed under rendering -/

/-- Nodes that may be rendered, each in some manners, and commands that a name may stand for,
with all that rendering comes to from there, but for the values of wildcards. -/
structure Reach where
  visits : Manner → Command → Prop
  keeps : Text → Command → Prop
  rendered : ∀ {manner command part}, visits manner command → part ∈ command.rendered →
    visits manner part
  forced : ∀ {manner command}, visits manner command →
    visits (manner.under command.declared) command
  chosen : ∀ {manner command part}, visits manner command → part ∈ command.choices →
    visits (manner.passed command.declared) part
  named : ∀ {manner label name inlined sampling},
    visits manner (.wildcard label (.rendered name) inlined sampling) →
      visits (manner.under sampling) name
  read : ∀ {manner command name value}, visits manner command → name ∈ command.names →
    keeps name value → visits manner value
  deferred : ∀ {manner name value overwrite},
    visits manner (.assignment name value overwrite false) →
    keeps name value
  inlined : ∀ {manner label name inlined sampling},
    visits manner (.wildcard label name inlined sampling) →
    ∀ v ∈ inlined, keeps v.1 v.2

namespace Reach

/-- What is in both. -/
def and (r r' : Reach) : Reach where
  visits manner command := r.visits manner command ∧ r'.visits manner command
  keeps name value := r.keeps name value ∧ r'.keeps name value
  rendered h hpart := ⟨r.rendered h.1 hpart, r'.rendered h.2 hpart⟩
  forced h := ⟨r.forced h.1, r'.forced h.2⟩
  chosen h hpart := ⟨r.chosen h.1 hpart, r'.chosen h.2 hpart⟩
  named h := ⟨r.named h.1, r'.named h.2⟩
  read h hname hkept := ⟨r.read h.1 hname hkept.1, r'.read h.2 hname hkept.2⟩
  deferred h := ⟨r.deferred h.1, r'.deferred h.2⟩
  inlined h v hmem := ⟨r.inlined h.1 v hmem, r'.inlined h.2 v hmem⟩

/-- The methods that a manner can be by: a walk by one of these, and an enumeration if exhausting
is one of them where there are wildcards. -/
def permits (p : Command → Prop) (methods : Sampling → Prop) : Manner → Prop
  | .walked method => methods method
  | .enumerated => ∀ {label name inlined sampling}, p (.wildcard label name inlined sampling) →
    methods .combinatorial

/-- With all methods every manner is permitted. -/
theorem permits_all (p : Command → Prop) (manner : Manner) : permits p (fun _ => True) manner := by
  cases manner with
  | walked method => trivial
  | enumerated => exact fun _ => trivial

/-- What is asked for is permitted if it is in force, or exhausting where there are wildcards. -/
theorem permits_manner {p : Command → Prop} {methods : Sampling → Prop} {method : Sampling}
    (hmethod : method ≠ .combinatorial → methods method)
    (hexhausted : method = .combinatorial → permits p methods .enumerated) :
    permits p methods method.manner := by
  cases method with
  | combinatorial => exact hexhausted rfl
  | random | cyclical => exact hmethod nofun

section Everywhere

variable {p : Command → Prop} {methods : Sampling → Prop} {declared : Option Sampling}
  {manner : Manner}

theorem permits_under (h : permits p methods manner)
    (hdeclared : ∀ method, declared = some method → methods method) :
    permits p methods (manner.under declared) := by
  rcases manner.under_cases declared with hsame | ⟨method, hmethod, hforced⟩
  · rwa [hsame]
  · rw [hforced]
    exact hdeclared method hmethod

theorem permits_passed (hwalked : ∀ {method}, methods method → methods method.walked)
    (h : permits p methods manner) (hdeclared : ∀ method, declared = some method → methods method) :
    permits p methods (manner.passed declared) := by
  have hunder := permits_under h hdeclared
  unfold Manner.passed
  revert hunder
  cases manner.under declared with
  | enumerated => exact id
  | walked method =>
    intro hmethod
    refine hwalked ?_
    cases declared with
    | none => exact hmethod
    | some declared => exact hdeclared declared rfl

/-- Trees whose nodes have a property, by some methods, which nodes with the property declare and
which walks pass on. -/
def everywhere (p : Command → Prop) (methods : Sampling → Prop)
    (hwalked : ∀ {method}, methods method → methods method.walked)
    (hdeclared : ∀ {command method}, p command → command.declared = some method →
      methods method) : Reach where
  visits manner command := command.Everywhere p ∧ permits p methods manner
  keeps _ value := value.Everywhere p
  rendered h hpart := ⟨h.1.of_part (Command.rendered_subperm _ |>.subset hpart), h.2⟩
  forced h := ⟨h.1, permits_under h.2 fun _ => hdeclared h.1.here⟩
  chosen h hpart := ⟨h.1.of_part (Command.mem_parts_of_choices hpart),
    permits_passed hwalked h.2 fun _ => hdeclared h.1.here⟩
  named h := ⟨h.1.of_part (List.mem_append_left _ (List.mem_singleton_self _)),
    permits_under h.2 fun _ => hdeclared h.1.here⟩
  read h _ hkept := ⟨hkept, h.2⟩
  deferred h := h.1.of_part (List.mem_singleton_self _)
  inlined h _ hmem := h.1.of_part (List.mem_append_right _ (List.mem_map_of_mem hmem))

end Everywhere

/-- Everything in every manner. -/
def all : Reach where
  visits _ _ := True
  keeps _ _ := True
  rendered _ _ := trivial
  forced _ := trivial
  chosen _ _ := trivial
  named _ := trivial
  read _ _ _ := trivial
  deferred _ := trivial
  inlined _ _ _ := trivial

end Reach

/-! ## 3. What rendering a tree comes to -/

section Visited

variable (env : Environment) (number : Nat) (tree : Command) (manner : Manner) (scope : Scope)

mutual

/-- Rendering the tree in this manner and in this scope comes to a node in a manner, by the table
of wildcard values with the number. -/
inductive Visited : Manner → Command → Prop
  | root : Visited manner tree
  | rendered {manner : Manner} {command part : Command} (node : Visited manner command)
    (h : part ∈ command.rendered) : Visited manner part
  | forced {manner : Manner} {command : Command} (node : Visited manner command) :
    Visited (manner.under command.declared) command
  | chosen {manner : Manner} {command part : Command} (node : Visited manner command)
    (h : part ∈ command.choices) : Visited (manner.passed command.declared) part
  | named {manner : Manner} {label : Label} {name : Command} {inlined : List (Text × Command)}
    {sampling : Option Sampling}
    (node : Visited manner (.wildcard label (.rendered name) inlined sampling)) :
    Visited (manner.under sampling) name
  | candidate {manner : Manner} {label : Label} {name : WildcardName Command}
    {inlined : List (Text × Command)} {sampling : Option Sampling} {wildcard value : Text}
    {values : List Text} {candidate : Command}
    (node : Visited manner (.wildcard label name inlined sampling)) (spells : name.Spells wildcard)
    (answer : env.resolve wildcard = .ok values) (member : value ∈ values)
    (parse : env.grammar.parse (.candidate number value) value = .ok candidate) :
    Visited (manner.passed sampling) candidate
  | read {manner : Manner} {command value : Command} {name : Text} (node : Visited manner command)
    (reads : name ∈ command.names) (held : Held name value) : Visited manner value

/-- The name stands for the command somewhere on the way: in the given scope, behind an assignment
that keeps its value, or where the values of a wildcard are rendered. -/
inductive Held : Text → Command → Prop
  | given {name : Text} {binding : Binding} {value : Command}
    (lookup : scope.lookup name = some binding) (h : binding.Holds value) : Held name value
  | deferred {manner : Manner} {name : Text} {value : Command} {overwrite : Bool}
    (node : Visited manner (.assignment name value overwrite false)) : Held name value
  | inlined {manner : Manner} {label : Label} {name : WildcardName Command}
    {inlined : List (Text × Command)} {sampling : Option Sampling}
    (node : Visited manner (.wildcard label name inlined sampling)) {v : Text × Command}
    (h : v ∈ inlined) : Held v.1 v.2

end

/-- All that rendering a tree comes to. -/
def Reach.visited : Reach where
  visits := Visited env number tree manner scope
  keeps := Held env number tree manner scope
  rendered := .rendered
  forced := .forced
  chosen := .chosen
  named := .named
  read := .read
  deferred := .deferred
  inlined node _ h := .inlined node h

end Visited

end PromptTemplate
