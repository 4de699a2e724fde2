/-
`Values.lean` -- generating from wildcards whose values can all be read.

A value is read when a wildcard offers it, and by nothing else, so generating fails at a value
only if a wildcard has one that can not be read. This is one more likeness, between each session
and itself: it allows every error but that of a value, and asking for candidates is the one thing
that could break it.
-/
import PromptTemplate.Proofs.Generation.Prompts

set_option autoImplicit false

namespace PromptTemplate

/-- Every value of every wildcard can be read, wherever it is read for. -/
def Environment.ValuesParse (env : Environment) : Prop :=
  ∀ name values, env.resolve name = .ok values → ∀ value ∈ values, ∀ origin, ∃ tree,
    env.grammar.parse origin value = .ok tree

namespace Likeness

/-- A session and itself, with any error but that a value can not be read. -/
def sparing : Likeness where
  alike s t := s = t
  allowed error := ∀ fault, error ≠ .candidate fault

theorem sparing_reports : sparing.Reports := fun _ _ _ halike => by rw [show _ = _ from halike]; rfl

variable {env : Environment} (henv : env.ValuesParse)
include henv

/-- Asking for candidates never fails at a value: those that were read before are kept, and the
others can be read. -/
theorem sparing_asking (name : Text) (method : Sampling) :
    sparing.Answers (fun _ => True) (Session.wildcardCandidates env name method) := by
  rintro s _ rfl
  have hreads : s.Reads env.grammar (s.candidates.tree env.grammar) := fun _ => rfl
  have hfound := (hreads.wildcardCandidates env name method).1
  revert hfound
  generalize Session.wildcardCandidates env name method s = run
  obtain ⟨result, after⟩ := run
  intro hfound
  cases result with
  | ok found => exact .ok trivial rfl
  -- of the three ways to fail only the last is about a value, and that value was said to be read
  | error error =>
    refine .error (fun fault hfault => ?_) rfl
    subst hfault
    rcases cause_of_wildcardTrees hfound.symm with ⟨_, -, hload⟩ | ⟨-, -, hunresolved⟩ |
      ⟨values, value, hvalues, hvalue, htree⟩
    · cases hload
    · cases hunresolved
    · rw [CandidateTable.tree] at htree
      split at htree
      · cases htree
      · obtain ⟨fault, hparse, -⟩ := exists_of_mapError htree
        obtain ⟨tree, hread⟩ :=
          henv name values hvalues value hvalue (.candidate s.candidates.number value)
        rw [hread] at hparse
        cases hparse

/-- All of rendering keeps it. -/
theorem sparing_kept : sparing.Kept env .all fun _ _ => True where
  unknown _ _ herror := by cases herror
  tooDeep _ herror := by cases herror
  turn := by
    rintro _ _ _ - - - _ - s _ rfl
    exact ⟨rfl, rfl⟩
  draw := by
    rintro _ _ - - s _ rfl
    exact ⟨rfl, fun _ => rfl⟩
  option _ _ _ := .inl fun _ herror => by cases herror
  candidate _ _ := .inl fun _ herror => by cases herror
  asking _ text _ := sparing_asking henv text _
  passed _ _ _ _ _ := trivial

end Likeness

/-- The prompts of a tree do not fail at a value. -/
theorem Command.prompts_ne_candidate {env : Environment} (henv : env.ValuesParse)
    (command : Command) (method : Sampling) (count : Nat) (s : Session) (fault : ParseError) :
    (command.prompts env method count s).1 ≠ .error (.candidate fault) := by
  have hanswers : Likeness.sparing.Answers (fun _ => True) (command.prompts env method count) :=
    (Likeness.sparing_kept henv).answers_prompts Likeness.sparing_reports trivial count
  intro hfails
  rcases (hanswers s s rfl).elim
    with ⟨prompts, s', t', hrun, -⟩ | ⟨error, s', t', hrun, -, hallowed, -⟩
  · rw [hrun] at hfails
    cases hfails
  · rw [hrun] at hfails
    cases hfails
    exact hallowed fault rfl

/-- No call fails at a value, if all of them can be read in the declared grammar. -/
theorem generate_ne_candidate {declaration : GrammarDeclaration} {env : Environment}
    (henv : ∀ g, Grammar.load declaration = .ok g → { env with grammar := g }.ValuesParse)
    (subject : Subject) (method : Text) (count : Number) (s : Session) (fault : ParseError) :
    (generate declaration env subject method count s).1 ≠ .error (.walk (.candidate fault)) := by
  intro hfails
  -- the checks before the prompts fail for reasons of their own
  unfold generate at hfails
  split at hfails
  · cases hfails
  · split at hfails
    · cases hfails
    · split at hfails
      · cases hfails
      · next g hload =>
        split at hfails
        · cases hfails
        · next command after hread =>
          obtain ⟨error, hprompts, herror⟩ := exists_of_mapError hfails
          cases herror
          exact command.prompts_ne_candidate (henv g hload) _ _ _ fault hprompts

namespace Generator

variable {generator : Generator} {env : Environment}
  (henv : ∀ g, Grammar.load generator.declaration = .ok g → { env with grammar := g }.ValuesParse)
include henv

theorem generateTree_ne_candidate (tree : Command) (count : Number) (method : Option Text)
    (fault : ParseError) :
    (generator.generateTree env tree count method).1 ≠ .error (.walk (.candidate fault)) := by
  rw [generateTree]
  exact PromptTemplate.generate_ne_candidate henv (.tree tree) _ count generator.session fault

/-- Nor does a call of a generator, whatever it keeps. -/
theorem generate_ne_candidate (subject : Subject) (count : Number) (method : Option Text)
    (fault : ParseError) :
    (generator.generate env subject count method).1 ≠ .error (.walk (.candidate fault)) := by
  cases subject with
  | tree tree => exact generateTree_ne_candidate henv tree count method fault
  | template source =>
    have hdeclared : (generator.parse source).2.declaration = generator.declaration :=
      (generator.parse_settings source).declaration
    rw [generate]
    revert hdeclared
    generalize generator.parse source = parsed
    obtain ⟨result, between⟩ := parsed
    intro hdeclared
    cases result with
    | error error => exact fun hfails => by cases hfails
    | ok tree =>
      exact generateTree_ne_candidate (fun g hload => henv g (hdeclared ▸ hload)) tree count
        method fault

end Generator

end PromptTemplate
