/-
`Calls.lean` -- what a generator answers to a sequence of calls.

A caller sees of a generator only its answers. `Generator.answers` lists them for a sequence of
calls and `Generator.after` is the generator behind it; all calls share the settings and differ
only in the trees and the session that are kept.
-/
import PromptTemplate.Generation.Generator

set_option autoImplicit false

namespace PromptTemplate

/-- What a generator can be called for. Resetting stands for forgetting the rotations as well as
for clearing the caches: wildcards whose values are given have no cache of their own. -/
inductive Call
  | parse (source : Text)
  | generate (subject : Subject) (count : Number) (method : Option Text)
  | reset

/-- What a call comes back with. -/
inductive Answer
  | tree (result : Except ParseError Command)
  | prompts (result : Except GenerationError (List Text))
  | done

namespace Generator

/-- One call. -/
def perform (env : Environment) (generator : Generator) : Call → Answer × Generator
  | .parse source =>
    let (result, generator) := generator.parse source
    (.tree result, generator)
  | .generate subject count method =>
    let (result, generator) := generator.generate env subject count method
    (.prompts result, generator)
  | .reset => (.done, generator.reset)

/-- A call for a tree answers what reading the template gives. -/
theorem perform_parse (env : Environment) (generator : Generator) (source : Text) :
    generator.perform env (.parse source) =
      (.tree (generator.parse source).1, (generator.parse source).2) := rfl

/-- A call for prompts answers what generating gives. -/
theorem perform_generate (env : Environment) (generator : Generator) (subject : Subject)
    (count : Number) (method : Option Text) :
    generator.perform env (.generate subject count method) =
      (.prompts (generator.generate env subject count method).1,
        (generator.generate env subject count method).2) := rfl

/-- The answers to calls, one after another. -/
def answers (env : Environment) : Generator → List Call → List Answer
  | _, [] => []
  | generator, call :: calls =>
    (generator.perform env call).1 :: answers env (generator.perform env call).2 calls

/-- The generator behind the calls. -/
def after (env : Environment) : Generator → List Call → Generator
  | generator, [] => generator
  | generator, call :: calls => after env (generator.perform env call).2 calls

variable (env : Environment) (generator : Generator)

/-- What a generator was made with. -/
structure SameSettings (a b : Generator) : Prop where
  declaration : a.declaration = b.declaration
  grammar : a.grammar = b.grammar
  method : a.method = b.method

namespace SameSettings

variable {a b c : Generator}

theorem refl (a : Generator) : a.SameSettings a := ⟨rfl, rfl, rfl⟩

theorem symm (h : a.SameSettings b) : b.SameSettings a :=
  ⟨h.declaration.symm, h.grammar.symm, h.method.symm⟩

theorem trans (h : a.SameSettings b) (h' : b.SameSettings c) : a.SameSettings c :=
  ⟨h.declaration.trans h'.declaration, h.grammar.trans h'.grammar, h.method.trans h'.method⟩

end SameSettings

theorem parse_settings (source : Text) : (generator.parse source).2.SameSettings generator := by
  unfold parse
  split
  · exact ⟨rfl, rfl, rfl⟩
  · split <;> exact ⟨rfl, rfl, rfl⟩

theorem perform_settings (call : Call) : (generator.perform env call).2.SameSettings generator := by
  -- a template is read first, which may add a tree but changes no setting
  cases call with
  | parse source => exact generator.parse_settings source
  | generate subject count method =>
    cases subject with
    | tree tree => exact ⟨rfl, rfl, rfl⟩
    | template source =>
      have hparse := generator.parse_settings source
      simp only [perform, generate]
      revert hparse
      generalize generator.parse source = parsed
      obtain ⟨result, between⟩ := parsed
      intro hparse
      cases result with
      | error error => exact hparse
      | ok tree => exact ⟨hparse.declaration, hparse.grammar, hparse.method⟩
  | reset => exact ⟨rfl, rfl, rfl⟩

/-- No call changes the settings. -/
theorem after_settings (calls : List Call) :
    (generator.after env calls).SameSettings generator := by
  induction calls generalizing generator with
  | nil => exact .refl generator
  | cons call calls ih =>
    exact (ih (generator.perform env call).2).trans (generator.perform_settings env call)

/-- A new generator has read its declaration and kept nothing. -/
theorem eq_of_create {declaration : GrammarDeclaration} {method : Text} {first : Nat}
    {fresh : Generator} (h : create declaration method first = .ok fresh) :
    Grammar.load declaration = .ok fresh.grammar ∧ fresh = ⟨declaration, fresh.grammar, method, [],
      { Session.fresh first with notices := [.builtParser fresh.grammar.key] }⟩ := by
  unfold create at h
  cases hload : Grammar.load declaration with
  | error error => rw [hload] at h; cases h
  | ok g =>
    rw [hload] at h
    cases h
    exact ⟨rfl, rfl⟩

end Generator

end PromptTemplate
