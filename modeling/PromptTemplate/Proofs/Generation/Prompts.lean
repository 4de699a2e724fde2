/-
`Prompts.lean` -- prompts from sessions that are alike.

A call for prompts renders a tree several times or enumerates it, so it keeps every likeness that
rendering keeps, if reporting keeps it too. What comes back is the same, prompts or error.
-/
import PromptTemplate.Proofs.Expansion.Kept
import PromptTemplate.Proofs.Generation.Calls

set_option autoImplicit false

namespace PromptTemplate

namespace Likeness

/-- Something to report makes no difference. -/
def Reports (k : Likeness) : Prop :=
  ∀ s t notice, k.alike s t →
    k.alike { s with notices := notice :: s.notices } { t with notices := notice :: t.notices }

namespace Kept

variable {k : Likeness} {env : Environment} {r : Reach}
  {offered : WildcardName Command → List Command → Prop} (h : k.Kept env r offered)
  {command : Command}
include h

theorem answers_renderRepeatedly {method : Sampling} (hvisited : r.visits (.walked method) command)
    (count : Nat) : k.Answers (fun _ => True) (renderRepeatedly env command method count) := by
  have hwalks : k.Walks (fun _ after => after.Keeps r.keeps) (.root [])
      (renderOnce env command method []) := h.walks_within env.depthLimit method command _ []
    ⟨List.forall_mem_singleton.2 hvisited, Scope.keeps_root _⟩
  -- the first walk leaves alike sessions, or fails alike; the others go on from there
  induction count with
  | zero => exact fun s t halike => .ok trivial halike
  | succ count ih =>
    intro s t halike
    have hends := hwalks s t halike
    rw [renderRepeatedly, renderRepeatedly]
    revert hends
    generalize renderOnce env command method [] ⟨.root [], s⟩ = mine,
      renderOnce env command method [] ⟨.root [], t⟩ = yours
    rintro (⟨-, -, halike⟩ | ⟨hallowed, halike⟩)
    · rcases (ih _ _ halike).elim with ⟨rest, s', t', hmine, hyours, -, halike⟩ |
        ⟨error, s', t', hmine, hyours, hallowed, halike⟩
      · dsimp only
        rw [hmine, hyours]
        exact .ok trivial halike
      · dsimp only
        rw [hmine, hyours]
        exact .error hallowed halike
    · exact .error hallowed halike

theorem answers_enumerateDistinct (hvisited : r.visits .enumerated command) (limit : Option Nat) :
    k.Answers (fun _ => True) (enumerateDistinct env command (.root []) limit) := by
  have hyields : k.Yields (·.Keeps r.keeps) (enumerate env command (.root []) []) :=
    h.yields_within env.depthLimit command _ []
      ⟨List.forall_mem_singleton.2 hvisited, Scope.keeps_root _⟩
  intro s t halike
  unfold enumerateDistinct Branches.distinctTexts
  split
  · exact .ok trivial halike
  -- different texts are asked for, so fewer may come than the count
  · exact (hyields s t halike).distinctTexts limit []

/-- The prompts of a tree in reach. -/
theorem answers_prompts (hreports : k.Reports) {method : Sampling}
    (hvisited : r.visits method.manner command) (count : Nat) :
    k.Answers (fun _ => True) (command.prompts env method count) := by
  have hrendered : k.Answers (fun _ => True) fun s =>
      if method = .combinatorial then enumerateDistinct env command (.root []) (some count) s
      else renderRepeatedly env command method count s := by
    cases method with
    | combinatorial => exact h.answers_enumerateDistinct hvisited _
    | random | cyclical => exact h.answers_renderRepeatedly hvisited count
  intro s t halike
  -- each check comes before the next is looked at
  unfold Command.prompts
  split
  · exact .ok trivial halike
  -- what was noticed on the way is reported behind the prompts, or behind the error
  · rcases (hrendered s t halike).elim with ⟨prompts, s', t', hmine, hyours, -, halike⟩ |
      ⟨error, s', t', hmine, hyours, hallowed, halike⟩
    · dsimp only at hmine hyours
      rw [hmine, hyours]
      exact .ok trivial (hreports _ _ _ halike)
    · dsimp only at hmine hyours
      rw [hmine, hyours]
      exact .error hallowed halike

end Kept

/-- **Alike sessions give the same prompts of a tree or the same error**, and are alike again: what
is wrong with a call is found without looking at the session. -/
theorem generate_alike {k : Likeness} {env : Environment} {r : Reach}
    {offered : WildcardName Command → List Command → Prop} {declaration : GrammarDeclaration}
    (h : ∀ g, Grammar.load declaration = .ok g → k.Kept { env with grammar := g } r offered)
    (hreports : k.Reports) {tree : Command} {method : Text}
    (hvisited : ∀ sampling, Sampling.ofName? method = some sampling →
      r.visits sampling.manner tree)
    (count : Number) {s t : Session} (halike : k.alike s t) :
    (generate declaration env (.tree tree) method count s).1 =
        (generate declaration env (.tree tree) method count t).1 ∧
      k.alike (generate declaration env (.tree tree) method count s).2
        (generate declaration env (.tree tree) method count t).2 := by
  unfold generate
  cases count.toNat? with
  -- the checks before reading do not look at the session, so both sides pass or fail together
  | none => exact ⟨rfl, halike⟩
  | some n =>
    cases hsampling : Sampling.ofName? method with
    | none => exact ⟨rfl, halike⟩
    | some sampling =>
      cases hg : Grammar.load declaration with
      | error error => exact ⟨rfl, halike⟩
      | ok g =>
        rcases ((h g hg).answers_prompts hreports (hvisited sampling hsampling) n s t
          halike).elim with
          ⟨prompts, s', t', hmine, hyours, -, halike⟩ | ⟨error, s', t', hmine, hyours, -, halike⟩
        · dsimp only [Subject.read]
          rw [hmine, hyours]
          exact ⟨rfl, halike⟩
        · dsimp only [Subject.read]
          rw [hmine, hyours]
          exact ⟨rfl, halike⟩

/-- Generators with the same settings and alike sessions give the same prompts of a tree. -/
theorem generateTree_alike {k : Likeness} {env : Environment} {r : Reach}
    {offered : WildcardName Command → List Command → Prop}
    (h : ∀ g, k.Kept { env with grammar := g } r offered) (hreports : k.Reports)
    {a b : Generator} (hsettings : a.SameSettings b) {tree : Command} {method : Option Text}
    (hvisited : ∀ sampling, Sampling.ofName? (method.getD a.method) = some sampling →
      r.visits sampling.manner tree)
    (count : Number) (halike : k.alike a.session b.session) :
    (a.generateTree env tree count method).1 = (b.generateTree env tree count method).1 ∧
      k.alike (a.generateTree env tree count method).2.session
        (b.generateTree env tree count method).2.session := by
  unfold Generator.generateTree
  rw [← hsettings.declaration, ← hsettings.method]
  exact generate_alike (fun g _ => h g) hreports hvisited count halike

end Likeness

end PromptTemplate
