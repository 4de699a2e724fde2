/-
`Keeping.lean` -- the templates that a generator keeps.

A template that was read is kept, so all later calls use the same nodes, and they carry a number
that no other reading has (`Generator.Faithful`). Nodes that are still to be read are at the start.
So each call moves the nodes of one template only, and only if it rotates it
(`Generator.Faithful.perform`).
-/
import Mathlib.Logic.Equiv.Basic
import PromptTemplate.Proofs.Generation.Renumbered
import PromptTemplate.Proofs.Generation.Unmarked

set_option autoImplicit false

namespace PromptTemplate

/-! ## 1. Calls -/

theorem Sampling.ofName?_name (method : Sampling) : Sampling.ofName? method.name = some method := by
  cases method <;> rfl

theorem Sampling.eq_name_of_ofName? {text : Text} {method : Sampling}
    (h : Sampling.ofName? text = some method) : text = method.name := by
  have hfound : decide (method.name = text) = true :=
    List.find?_some (p := fun m : Sampling => decide (m.name = text)) h
  exact (of_decide_eq_true hfound).symm

namespace Call

/-- A call to read or to use a template without wildcards and markers. -/
inductive Unmarked (g : Grammar) : Call → Prop
  | parse {source : Text} (h : g.Unmarked source) : Unmarked g (.parse source)
  | generate {source : Text} (h : g.Unmarked source) (count : Number) (method : Option Text) :
    Unmarked g (.generate (.template source) count method)

/-- A call for prompts of the template in rotation, where the call's own method comes before the
standing one. -/
def rotates (standing source : Text) : Call → Bool
  | .generate (.template given) _ method =>
    decide (given = source ∧ method.getD standing = Sampling.cyclical.name)
  | _ => false

/-- How many prompts a call asks for. -/
def count : Call → Nat
  | .generate _ count _ => count.toNat?.getD 0
  | _ => 0

theorem exists_of_rotates {standing source : Text} {call : Call}
    (h : call.rotates standing source = true) : ∃ count method,
      call = .generate (.template source) count method ∧
        method.getD standing = Sampling.cyclical.name := by
  cases call with
  | generate subject count method =>
    cases subject with
    | template given =>
      obtain ⟨rfl, hmethod⟩ := of_decide_eq_true h
      exact ⟨count, method, rfl, hmethod⟩
    | tree tree => cases h
  | _ => cases h

end Call

namespace Generator

/-- The answers to those of the calls that are selected. -/
def answersTo (env : Environment) (selected : Call → Bool) (generator : Generator)
    (calls : List Call) : List Answer :=
  ((calls.zip (generator.answers env calls)).filter fun p => selected p.1).map (·.2)

theorem answersTo_cons (env : Environment) (selected : Call → Bool) (generator : Generator)
    (call : Call) (calls : List Call) :
    generator.answersTo env selected (call :: calls) =
      if selected call = true then
        (generator.perform env call).1 :: (generator.perform env call).2.answersTo env
          selected calls
      else (generator.perform env call).2.answersTo env selected calls := by
  rw [answersTo, answers, List.zip_cons_cons, List.filter_cons]
  split <;> rfl

/-! ## 2. The trees that are kept -/

section Kept

variable {generator : Generator} {source : Text} {tree : Command}

/-- A template that is kept is not read again. -/
theorem parse_of_kept (hkept : generator.trees.lookup source = some tree) :
    generator.parse source = (.ok tree, generator) := by
  rw [parse, hkept]

/-- A template that could be read is kept. -/
theorem lookup_parse {after : Generator} (hread : generator.parse source = (.ok tree, after)) :
    after.trees.lookup source = some tree := by
  -- either it was kept before, or it is kept now in front of the others
  cases hkept : generator.trees.lookup source with
  | some kept =>
    rw [parse_of_kept hkept] at hread
    cases hread
    exact hkept
  | none =>
    rw [parse, hkept] at hread
    revert hread
    dsimp only
    generalize generator.session.parseTemplate generator.grammar source = run
    obtain ⟨result, after⟩ := run
    intro hread
    cases result with
    | error error => cases hread
    | ok read =>
      cases hread
      exact List.lookup_cons_self

/-- Reading another template does not replace one that is kept. -/
theorem lookup_parse_of_kept (hkept : generator.trees.lookup source = some tree) (other : Text) :
    (generator.parse other).2.trees.lookup source = some tree := by
  unfold parse
  split
  -- reading another text puts its tree in front, and the lookup passes over it
  · exact hkept
  · next hnew =>
    generalize generator.session.parseTemplate generator.grammar other = run
    obtain ⟨result, after⟩ := run
    cases result with
    | error error => exact hkept
    | ok read =>
      have hne : source ≠ other := by
        rintro rfl
        rw [hkept] at hnew
        cases hnew
      dsimp only
      rw [List.lookup_cons, beq_false_of_ne hne]
      exact hkept

/-- No call without a reset drops a tree. -/
theorem lookup_perform_of_kept (hkept : generator.trees.lookup source = some tree)
    (env : Environment) {g : Grammar} {call : Call} (hcall : call.Unmarked g) :
    (generator.perform env call).2.trees.lookup source = some tree := by
  cases hcall with
  | @parse given _ => exact lookup_parse_of_kept hkept given
  | @generate given _ count method =>
    have hparse := lookup_parse_of_kept hkept given
    rw [perform_generate, generate]
    revert hparse
    generalize generator.parse given = parsed
    obtain ⟨result, between⟩ := parsed
    intro hparse
    cases result <;> exact hparse

end Kept

/-! ## 3. Numbers of their own -/

end Generator

/-- Where the nodes of a reading stand, by their places. -/
def Session.standing (s : Session) (number : Nat) : List Nat → Nat :=
  fun place => s.counters.position ⟨place, .template number⟩

namespace Generator

/-- Where the nodes of a template stand when it is used next: those of its tree, if it is kept, and
at the start if it is still to be read. -/
def standing (generator : Generator) (number : Text → Nat) (source : Text) : List Nat → Nat :=
  if generator.keeps source then generator.session.standing (number source) else fun _ => 0

/-- The generator has its declared grammar, and keeps the trees that reading gives, each under a
number of its own. Nodes under numbers that are still free are at the start. -/
structure Faithful (generator : Generator) (number : Text → Nat) : Prop where
  grammar : Grammar.load generator.declaration = .ok generator.grammar
  trees : ∀ source tree, generator.trees.lookup source = some tree →
    generator.grammar.parse (.template (number source)) source = .ok tree
  given : ∀ source, generator.keeps source = true → number source < generator.session.numbered
  apart : ∀ source other, generator.keeps source = true → generator.keeps other = true →
    number source = number other → source = other
  unused : ∀ n, generator.session.numbered ≤ n → generator.session.standing n = fun _ => 0

theorem faithful_of_create {declaration : GrammarDeclaration} {method : Text} {first : Nat}
    {fresh : Generator} (h : create declaration method first = .ok fresh) :
    fresh.Faithful fun _ => 0 := by
  obtain ⟨hload, hnew⟩ := eq_of_create h
  have hnone : ∀ source, fresh.keeps source = false := by
    intro source
    rw [hnew]
    rfl
  refine ⟨by rw [hnew]; exact hload, fun source tree hkept => ?_,
    fun source hkept => (Bool.eq_false_iff.1 (hnone source) hkept).elim,
    fun source _ hkept => (Bool.eq_false_iff.1 (hnone source) hkept).elim, fun n _ => ?_⟩
  · rw [hnew] at hkept
    cases hkept
  · rw [hnew]
    rfl

theorem keeps_of_lookup {generator : Generator} {source : Text} {tree : Command}
    (hkept : generator.trees.lookup source = some tree) : generator.keeps source = true := by
  rw [keeps, hkept]
  rfl

namespace Faithful

variable {generator : Generator} {number : Text → Nat} (h : generator.Faithful number)
include h

theorem opens : generator.grammar.Opens := Grammar.opens_of_load h.grammar

/-- Reading a template under one number and another differs in the labels. -/
theorem parse_number (source : Text) (m n : Nat) :
    generator.grammar.parse (.template n) source =
      (generator.grammar.parse (.template m) source).map
        (Command.renumbered (Equiv.swap m n).toEmbedding) := by
  refine Template.parse_relabelled h.opens (fun place => ?_) source
  rw [Label.renumbered, Origin.renumbered, Equiv.coe_toEmbedding, Equiv.swap_apply_left]

/-- Reading a template gives a tree that reading it gives under some number, or the error. -/
theorem exists_number (source : Text) : ∃ n,
    (generator.parse source).1 = generator.grammar.parse (.template n) source := by
  cases hkept : generator.trees.lookup source with
  | some tree =>
    rw [parse_of_kept hkept]
    exact ⟨number source, (h.trees source tree hkept).symm⟩
  | none =>
    refine ⟨generator.session.numbered, ?_⟩
    rw [Generator.parse, hkept]
    dsimp only [Session.parseTemplate]
    generalize generator.grammar.parse (.template generator.session.numbered) source = result
    cases result <;> rfl

/-- A new tree is kept under the first number that is free, so it has no node in common with
another one, and its nodes are at the start. -/
theorem keep {source : Text} (tree : Command) (hnew : generator.trees.lookup source = none)
    (hread : generator.grammar.parse (.template generator.session.numbered) source = .ok tree) :
    let kept : Generator := { generator with
      trees := (source, tree) :: generator.trees
      session := { generator.session with numbered := generator.session.numbered + 1 } }
    let number' := fun other => if other = source then generator.session.numbered else number other
    kept.Faithful number' ∧
      ∀ other, kept.standing number' other = generator.standing number other := by
  intro kept number'
  have hself : number' source = generator.session.numbered := if_pos rfl
  -- every other source has its tree and its number as before; the new one has the next number
  have hother : ∀ {other}, other ≠ source → kept.trees.lookup other = generator.trees.lookup other ∧
      number' other = number other := by
    intro other hne
    refine ⟨?_, if_neg hne⟩
    rw [List.lookup_cons, beq_false_of_ne hne]
  have hkeeps : ∀ {other}, other ≠ source → kept.keeps other = generator.keeps other := by
    intro other hne
    rw [keeps, keeps, (hother hne).1]
  have hbelow : ∀ {other}, other ≠ source → kept.keeps other = true →
      number' other < generator.session.numbered := by
    intro other hne hkept
    rw [(hother hne).2]
    exact h.given other (hkeeps hne ▸ hkept)
  refine ⟨⟨h.grammar, fun other found hfound => ?_, fun other hkept => ?_,
    fun first second hfirst hsecond hsame => ?_, fun n hn => h.unused n (Nat.le_of_succ_le hn)⟩,
    fun other => ?_⟩
  -- the conditions one by one, each for the new source and for the others
  · by_cases hne : other = source
    · subst hne
      rw [List.lookup_cons_self] at hfound
      cases hfound
      rw [hself]
      exact hread
    · rw [(hother hne).1] at hfound
      rw [(hother hne).2]
      exact h.trees other found hfound
  · by_cases hne : other = source
    · rw [hne, hself]
      exact Nat.lt_succ_self _
    · exact Nat.lt_succ_of_lt (hbelow hne hkept)
  · by_cases hne : first = source
    · by_cases hne' : second = source
      · rw [hne, hne']
      · have hlt := hbelow hne' hsecond
        rw [← hsame, hne, hself] at hlt
        exact absurd hlt (Nat.lt_irrefl _)
    · by_cases hne' : second = source
      · have hlt := hbelow hne hfirst
        rw [hsame, hne', hself] at hlt
        exact absurd hlt (Nat.lt_irrefl _)
      · rw [(hother hne).2, (hother hne').2] at hsame
        exact h.apart first second (hkeeps hne ▸ hfirst) (hkeeps hne' ▸ hsecond) hsame
  · by_cases hne : other = source
    · subst hne
      have hfree : generator.keeps other = false := by
        rw [keeps, hnew]
        rfl
      have hnow : kept.keeps other = true := keeps_of_lookup List.lookup_cons_self
      rw [Generator.standing, Generator.standing, hfree, hself, hnow]
      exact h.unused _ (Nat.le_refl _)
    · rw [Generator.standing, Generator.standing, hkeeps hne, (hother hne).2]
      rfl

/-- Reading a template leaves all nodes where they are. -/
theorem parse (source : Text) : ∃ number', (generator.parse source).2.Faithful number' ∧
    ∀ other, (generator.parse source).2.standing number' other =
      generator.standing number other := by
  cases hkept : generator.trees.lookup source with
  | some tree =>
    rw [parse_of_kept hkept]
    exact ⟨number, h, fun _ => rfl⟩
  | none =>
    have hkeep := fun tree => h.keep tree hkept
    rw [Generator.parse, hkept]
    dsimp only [Session.parseTemplate]
    -- a reading that fails uses up a number that no tree has, so what stood still stands
    revert hkeep
    cases generator.grammar.parse (.template generator.session.numbered) source with
    | error error =>
      intro _
      exact ⟨number,
        ⟨h.grammar, h.trees, fun other hother => Nat.lt_succ_of_lt (h.given other hother),
        h.apart, fun n hn => h.unused n (Nat.le_of_succ_le hn)⟩, fun _ => rfl⟩
    | ok tree => exact fun hkeep => ⟨_, hkeep tree rfl⟩

/-! ## 4. What moves the nodes -/

/-- Only rotating a tree moves nodes, and only its own. -/
theorem standing_generateTree (env : Environment) {source : Text} {tree : Command}
    (hkept : generator.trees.lookup source = some tree)
    (hunmarked : generator.grammar.Unmarked source) (count : Number) {method : Option Text}
    {n : Nat} (hn : n = number source → method.getD generator.method ≠ Sampling.cyclical.name) :
    (generator.generateTree env tree count method).2.session.standing n =
      generator.session.standing n := by
  -- by drawing nothing turns; in rotation only the labels of this tree's own number do
  have hmethod : ∀ sampling, Sampling.ofName? (method.getD generator.method) = some sampling →
      sampling ≠ .combinatorial →
      sampling = .random ∨ Origin.template (number source) ≠ .template n := by
    intro sampling hname hsampling
    cases sampling with
    | random => exact .inl rfl
    | combinatorial => exact absurd rfl hsampling
    | cyclical =>
      exact .inr fun heq => hn (Origin.template.inj heq).symm (Sampling.eq_name_of_ofName? hname)
  obtain ⟨-, -, hrests⟩ := Likeness.generateTree_alike
    (fun g => Likeness.resting_kept { env with grammar := g } (.template n)
      (.template (number source)) generator.session.counters.position)
    (Likeness.resting_reports _ _) (.refl generator)
    (fun sampling hname => Likeness.unmarked_visits _
      (hunmarked.everywhere h.opens (h.trees source tree hkept)) (hmethod sampling hname))
    count ⟨rfl, fun _ _ => rfl⟩
  exact funext fun place => hrests ⟨place, .template n⟩ rfl

/-- Prompts of a template that is kept move no other template, and without rotating not this one. -/
theorem generateTree (env : Environment) {source : Text} {tree : Command}
    (hkept : generator.trees.lookup source = some tree)
    (hunmarked : generator.grammar.Unmarked source) (count : Number) (method : Option Text) :
    (generator.generateTree env tree count method).2.Faithful number ∧
      ∀ other, (source = other → method.getD generator.method ≠ Sampling.cyclical.name) →
        (generator.generateTree env tree count method).2.standing number other =
          generator.standing number other := by
  have hnumbered := generator.numbered_generateTree env tree count method
  have hself := keeps_of_lookup hkept
  refine ⟨⟨h.grammar, h.trees, fun other hother => hnumbered ▸ h.given other hother, h.apart,
    fun n hn => ?_⟩, fun other hother => ?_⟩
  · rw [hnumbered] at hn
    have hlt := h.given source hself
    rw [h.standing_generateTree env hkept hunmarked count fun heq => by omega]
    exact h.unused n hn
  · have hkeeps : (generator.generateTree env tree count method).2.keeps other =
        generator.keeps other := rfl
    -- a source that is not kept stands nowhere, before and after
    rw [Generator.standing, Generator.standing, hkeeps]
    split
    · next hkeepsOther =>
      exact h.standing_generateTree env hkept hunmarked count fun heq =>
        hother (h.apart source other hself hkeepsOther heq.symm)
    · rfl

/-- One call moves no template but the one that it rotates. -/
theorem perform (env : Environment) {call : Call} (hcall : call.Unmarked generator.grammar) :
    ∃ number', (generator.perform env call).2.Faithful number' ∧
      ∀ source, call.rotates generator.method source = false →
        (generator.perform env call).2.standing number' source =
          generator.standing number source := by
  -- reading gives the template its number, and generating turns that number alone
  cases hcall with
  | @parse given _ =>
    obtain ⟨number', hfaithful, hstanding⟩ := h.parse given
    exact ⟨number', hfaithful, fun source _ => hstanding source⟩
  | @generate given hunmarked count method =>
    obtain ⟨number', hfaithful, hstanding⟩ := h.parse given
    have hsettings := generator.parse_settings given
    have hlookup := @lookup_parse generator given
    rw [perform_generate, Generator.generate]
    revert hfaithful hstanding hsettings hlookup
    generalize generator.parse given = parsed
    obtain ⟨result, kept⟩ := parsed
    intro hfaithful hstanding hsettings hlookup
    cases result with
    | error error => exact ⟨number', hfaithful, fun source _ => hstanding source⟩
    | ok tree =>
      rw [← hsettings.grammar] at hunmarked
      obtain ⟨hafter, hmoves⟩ := hfaithful.generateTree env (hlookup rfl) hunmarked count method
      refine ⟨number', hafter, fun source hother => (hmoves source fun hsource hmethod => ?_).trans
        (hstanding source)⟩
      exact of_decide_eq_false hother ⟨hsource, hsettings.method ▸ hmethod⟩

theorem after (env : Environment) {calls : List Call}
    (hcalls : ∀ call ∈ calls, call.Unmarked generator.grammar) :
    ∃ number', (generator.after env calls).Faithful number' := by
  induction calls generalizing generator number with
  | nil => exact ⟨number, h⟩
  | cons call calls ih =>
    obtain ⟨hcall, hrest⟩ := List.forall_mem_cons.1 hcalls
    obtain ⟨number', hfaithful, -⟩ := h.perform env hcall
    exact ih hfaithful fun other hother =>
      (generator.perform_settings env call).grammar ▸ hrest other hother

end Faithful

end Generator

end PromptTemplate
