/-
`Renumbered.lean` -- generators under other numbers.

What a generator reads gets its next numbers, and no prompt tells them. So a generator whose trees,
counters and wildcard values are renumbered answers a call for renumbered trees with the same
prompts, and what it reads is renumbered, as long as the next numbers go on in step
(`Renumbering.Continues`).
-/
import PromptTemplate.Proofs.Expansion.RenumberedBranches
import PromptTemplate.Proofs.Generation.Unread

set_option autoImplicit false

namespace PromptTemplate

variable {h : Renumbering}

/-! ## 1. Prompts -/

section Prompts

variable {env : Environment} (hopens : env.grammar.Opens) (command : Command)
include hopens

theorem renderRepeatedly_renumbered (method : Sampling) (count : Nat) (s : Session) :
    renderRepeatedly env (command.renumbered h) method count (s.renumbered h) =
      ((renderRepeatedly env command method count s).1,
        (renderRepeatedly env command method count s).2.renumbered h) := by
  induction count generalizing s with
  | zero => rfl
  | succ count ih =>
    -- texts have no labels, so a walk of the renumbered tree answers the same text
    have hfirst : renderOnce env (command.renumbered h) method [] ⟨.root [], s.renumbered h⟩ =
        ((renderOnce env command method [] ⟨.root [], s⟩).1.map id,
          (renderOnce env command method [] ⟨.root [], s⟩).2.renumbered h) :=
      renderWithin_renumbers hopens env.depthLimit command method [] ⟨.root [], s⟩
    rw [renderRepeatedly, renderRepeatedly, hfirst]
    generalize renderOnce env command method [] ⟨.root [], s⟩ = run
    obtain ⟨result, after⟩ := run
    cases result with
    | error error => rfl
    | ok text =>
      have hrest := ih after.session
      simp only [Except.map, Walking.renumbered, id]
      rw [hrest]
      generalize renderRepeatedly env command method count after.session = rest
      obtain ⟨result, last⟩ := rest
      cases result <;> rfl

theorem enumerateDistinct_renumbered (limit : Option Nat) (s : Session) :
    enumerateDistinct env (command.renumbered h) (.root []) limit (s.renumbered h) =
      ((enumerateDistinct env command (.root []) limit s).1,
        (enumerateDistinct env command (.root []) limit s).2.renumbered h) := by
  unfold enumerateDistinct Branches.distinctTexts
  split
  · rfl
  · exact (enumerateWithin_renumbers (h := h) hopens env.depthLimit command (.root []) []
      s).distinctTexts limit []

/-- The prompts of the renumbered tree in the renumbered session are those of the tree. -/
theorem Command.prompts_renumbered (method : Sampling) (count : Nat) (s : Session) :
    (command.renumbered h).prompts env method count (s.renumbered h) =
      ((command.prompts env method count s).1,
        (command.prompts env method count s).2.renumbered h) := by
  unfold Command.prompts
  split
  · rfl
  · rw [renderRepeatedly_renumbered hopens, enumerateDistinct_renumbered hopens]
    -- the method decides which of the two ran; both were shown to keep the renumbering
    have hrun : (if method = .combinatorial then
          ((enumerateDistinct env command (.root []) (some count) s).1,
            (enumerateDistinct env command (.root []) (some count) s).2.renumbered h)
        else ((renderRepeatedly env command method count s).1,
          (renderRepeatedly env command method count s).2.renumbered h)) =
        ((if method = .combinatorial then enumerateDistinct env command (.root []) (some count) s
          else renderRepeatedly env command method count s).1,
          (if method = .combinatorial then enumerateDistinct env command (.root []) (some count) s
          else renderRepeatedly env command method count s).2.renumbered h) := by
      split <;> rfl
    rw [hrun]
    generalize (if method = .combinatorial then
      enumerateDistinct env command (.root []) (some count) s
      else renderRepeatedly env command method count s) = run
    obtain ⟨result, after⟩ := run
    cases result <;> rfl

end Prompts

theorem generateTree_renumbered (declaration : GrammarDeclaration) (env : Environment)
    (tree : Command) (method : Text) (count : Number) (s : Session) :
    generate declaration env (.tree (tree.renumbered h)) method count (s.renumbered h) =
      ((generate declaration env (.tree tree) method count s).1,
        (generate declaration env (.tree tree) method count s).2.renumbered h) := by
  unfold generate
  -- neither the checks nor the grammar depend on numbers
  cases count.toNat? with
  | none => rfl
  | some n =>
    cases Sampling.ofName? method with
    | none => rfl
    | some sampling =>
      cases hload : Grammar.load declaration with
      | error error => rfl
      | ok g =>
        have hopens : { env with grammar := g }.grammar.Opens := Grammar.opens_of_load hload
        simp only [Subject.read]
        rw [Command.prompts_renumbered hopens]

/-! ## 2. Generators -/

/-- From a number on, the numbers go on in step. -/
def Renumbering.Continues (h : Renumbering) (first : Nat) : Prop :=
  ∀ number, first ≤ number → h (number + 1) = h number + 1

theorem Renumbering.Continues.mono {first later : Nat} (hcontinues : h.Continues first)
    (hlater : first ≤ later) : h.Continues later :=
  fun number hnumber => hcontinues number (hlater.trans hnumber)

section Renumbered

variable (h : Renumbering)

/-- What to render, with the numbers in a given tree changed. -/
def Subject.renumbered : Subject → Subject
  | .template source => .template source
  | .tree command => .tree (command.renumbered h)

/-- The call with the numbers in a given tree changed. -/
def Call.renumbered : Call → Call
  | .generate subject count method => .generate (subject.renumbered h) count method
  | call => call

/-- The answer with the numbers in a tree changed. -/
def Answer.renumbered : Answer → Answer
  | .tree result => .tree (result.map (Command.renumbered h))
  | answer => answer

/-- The generator with all that it keeps renumbered, and what it will read too. -/
def Generator.renumbered (generator : Generator) : Generator :=
  { generator with
    trees := generator.trees.map (Prod.map id (Command.renumbered h))
    session := generator.session.renumbered h }

end Renumbered

namespace Generator

variable (generator : Generator) (hopens : generator.grammar.Opens)
  (hcontinues : h.Continues generator.session.numbered)

include hopens hcontinues in
/-- A template that is kept has its renumbered tree; one that is read gets the next number, which is
the renumbered one. -/
theorem parse_renumbered (source : Text) :
    (generator.renumbered h).parse source =
      ((generator.parse source).1.map (Command.renumbered h),
        (generator.parse source).2.renumbered h) := by
  -- the generator has the tree under the text itself, and the number of the next one is renumbered
  have hlookup : (generator.renumbered h).trees.lookup source =
      (generator.trees.lookup source).map (Command.renumbered h) :=
    lookup_map_map Function.injective_id _ generator.trees source
  have hparse : generator.grammar.parse (.template (h generator.session.numbered)) source =
      (generator.grammar.parse (.template generator.session.numbered) source).map
        (Command.renumbered h) :=
    Template.parse_relabelled hopens (fun _ => rfl) source
  have hread : (generator.renumbered h).session.parseTemplate (generator.renumbered h).grammar
      source =
      ((generator.session.parseTemplate generator.grammar source).1.map (Command.renumbered h),
        (generator.session.parseTemplate generator.grammar source).2.renumbered h) := by
    simp only [Session.parseTemplate, renumbered, Session.renumbered, hparse,
      hcontinues _ (Nat.le_refl _)]
  rw [parse, parse, hlookup, hread]
  cases generator.trees.lookup source with
  | some tree => rfl
  | none =>
    generalize generator.session.parseTemplate generator.grammar source = run
    obtain ⟨result, after⟩ := run
    cases result <;> rfl

theorem generateTree_renumbered (env : Environment) (tree : Command) (count : Number)
    (method : Option Text) :
    (generator.renumbered h).generateTree env (tree.renumbered h) count method =
      ((generator.generateTree env tree count method).1,
        (generator.generateTree env tree count method).2.renumbered h) := by
  rw [generateTree, generateTree]
  simp only [renumbered, PromptTemplate.generateTree_renumbered]

include hopens hcontinues

theorem generate_renumbered (env : Environment) (subject : Subject) (count : Number)
    (method : Option Text) :
    (generator.renumbered h).generate env (subject.renumbered h) count method =
      ((generator.generate env subject count method).1,
        (generator.generate env subject count method).2.renumbered h) := by
  cases subject with
  | tree tree => exact generator.generateTree_renumbered env tree count method
  | template source =>
    rw [Subject.renumbered, generate, generate]
    rw [generator.parse_renumbered hopens hcontinues source]
    generalize generator.parse source = parsed
    obtain ⟨result, between⟩ := parsed
    cases result with
    | error error => rfl
    | ok tree => exact between.generateTree_renumbered env tree count method

/-- One call: the renumbered answer, and the renumbered generator. -/
theorem perform_renumbered (env : Environment) (call : Call) :
    (generator.renumbered h).perform env (call.renumbered h) =
      ((generator.perform env call).1.renumbered h,
        (generator.perform env call).2.renumbered h) := by
  cases call with
  | parse source =>
    simp only [perform, Call.renumbered, Answer.renumbered,
      generator.parse_renumbered hopens hcontinues source]
  | generate subject count method =>
    simp only [perform, Call.renumbered, Answer.renumbered,
      generator.generate_renumbered hopens hcontinues env subject count method]
  | reset =>
    simp only [perform, Call.renumbered, Answer.renumbered, reset, renumbered, Session.renumbered,
      hcontinues _ (Nat.le_refl _)]
    rfl

/-- **Answers do not depend on numbers**, whatever the calls. -/
theorem answers_renumbered (env : Environment) (calls : List Call) :
    (generator.renumbered h).answers env (calls.map (Call.renumbered h)) =
      (generator.answers env calls).map (Answer.renumbered h) := by
  induction calls generalizing generator with
  | nil => rfl
  | cons call calls ih =>
    rw [List.map_cons, answers, answers, List.map_cons,
      generator.perform_renumbered hopens hcontinues env call]
    refine congrArg _ (ih (generator.perform env call).2 ?_ ?_)
    · rw [(generator.perform_settings env call).grammar]
      exact hopens
    · exact hcontinues.mono (generator.numbered_le_perform env call)

end Generator

end PromptTemplate
