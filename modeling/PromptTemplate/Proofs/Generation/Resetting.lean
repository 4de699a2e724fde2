/-
`Resetting.lean` -- a generator that is reset is as good as new.

Resetting drops the trees, the wildcard values and all positions. So what is left of a history is
how many draws were taken, what was written down and is never read (`Generator.Resembles`), and
which numbers were given out. Nodes that are read from now on have new numbers, and a new generator
would have given them other ones; prompts do not tell the difference (`answers_renumbered`). Only a
tree from before the reset, when it is given in a call, has the same nodes for both.
-/
import PromptTemplate.Proofs.Generation.Keeping
import PromptTemplate.Wildcard.Collections

set_option autoImplicit false

namespace PromptTemplate

/-! ## 1. New numbers -/

/-- The numbers from `first` on go on from `last`, and those before stay. -/
def Renumbering.shift (first last : Nat) (hlast : first ≤ last) : Renumbering where
  toFun number := if number < first then number else number - first + last
  inj' a b hsame := by
    dsimp only at hsame
    split at hsame <;> split at hsame <;> omega

namespace Renumbering

variable {first last : Nat} (hlast : first ≤ last)

theorem shift_of_lt {number : Nat} (hnumber : number < first) :
    shift first last hlast number = number := if_pos hnumber

theorem shift_add (more : Nat) : shift first last hlast (first + more) = last + more := by
  have hshift : shift first last hlast (first + more) =
      if first + more < first then first + more else first + more - first + last := rfl
  rw [hshift, if_neg (by omega)]
  omega

theorem continues_shift : (shift first last hlast).Continues first := by
  intro number hnumber
  obtain ⟨more, rfl⟩ := Nat.exists_eq_add_of_le hnumber
  rw [Nat.add_assoc, shift_add, shift_add, Nat.add_assoc]

end Renumbering

/-! ## 2. Trees from before -/

/-- Every node of the tree that has a label was read under a smaller number. -/
def Command.ReadBefore (last : Nat) (command : Command) : Prop :=
  command.Everywhere fun c => ∀ label ∈ c.label?, ∃ number < last, label.origin = .template number

/-- What was read before a number was read before every later one. -/
theorem Command.ReadBefore.mono {last later : Nat} {command : Command}
    (h : command.ReadBefore last) (hle : last ≤ later) : command.ReadBefore later := by
  refine Everywhere.mono (fun c hc label hlabel => ?_) h
  obtain ⟨number, hnumber, horigin⟩ := hc label hlabel
  exact ⟨number, Nat.lt_of_lt_of_le hnumber hle, horigin⟩

/-- A tree that is read was read before the next number. -/
theorem Grammar.parse_readBefore {g : Grammar} {number : Nat} {source : Text} {tree : Command}
    (h : g.parse (.template number) source = .ok tree) : tree.ReadBefore (number + 1) :=
  (Grammar.parse_readFrom h).mono fun _ hc label hlabel =>
    ⟨number, Nat.lt_succ_self number, hc.label label hlabel⟩

/-- A tree that was read before keeps its nodes. -/
theorem Command.ReadBefore.renumbered_shift {first last : Nat} {command : Command}
    (h : command.ReadBefore first) (hlast : first ≤ last) :
    command.renumbered (.shift first last hlast) = command := by
  refine relabelled_eq_self (Everywhere.mono (fun c hc label hlabel => ?_) h)
  obtain ⟨number, hnumber, horigin⟩ := hc label hlabel
  obtain ⟨place, origin⟩ := label
  cases horigin
  rw [Label.renumbered, Origin.renumbered, Renumbering.shift_of_lt hlast hnumber]

namespace Generator

/-- The trees that a generator keeps were read before the first number that is free. -/
def Numbered (generator : Generator) : Prop :=
  ∀ source tree, generator.trees.lookup source = some tree →
    tree.ReadBefore generator.session.numbered

section Numbered

variable {generator : Generator}

/-- A generator that is made keeps no tree. -/
theorem numbered_of_create {declaration : GrammarDeclaration} {method : Text} {first : Nat}
    (h : create declaration method first = .ok generator) : generator.Numbered := by
  obtain ⟨-, hnew⟩ := eq_of_create h
  intro source tree hkept
  rw [hnew] at hkept
  cases hkept

/-- A template is read under the first number that is free, or was read before. -/
theorem Numbered.parse (h : generator.Numbered) (source : Text) :
    (generator.parse source).2.Numbered ∧ ∀ tree, (generator.parse source).1 = .ok tree →
      tree.ReadBefore (generator.parse source).2.session.numbered := by
  have hnext := Nat.le_succ generator.session.numbered
  -- a tree that was kept has an older number, and one read now has the number before the next
  cases hkept : generator.trees.lookup source with
  | some kept =>
    rw [parse_of_kept hkept]
    refine ⟨h, fun tree htree => ?_⟩
    cases htree
    exact h source kept hkept
  | none =>
    have hread := @Grammar.parse_readBefore generator.grammar generator.session.numbered source
    rw [Generator.parse, hkept]
    dsimp only [Session.parseTemplate]
    revert hread
    cases generator.grammar.parse (.template generator.session.numbered) source with
    | error error =>
      refine fun _ => ⟨fun other tree hother => (h other tree hother).mono hnext, ?_⟩
      intro tree htree
      cases htree
    | ok read =>
      intro hread
      refine ⟨fun other tree hother => ?_, fun tree htree => ?_⟩
      · dsimp only at hother
        rw [List.lookup_cons] at hother
        split at hother
        · cases hother
          exact hread rfl
        · exact (h other tree hother).mono hnext
      · cases htree
        exact hread rfl

/-- A call keeps the trees numbered, and a tree that it answers is one of them. -/
theorem Numbered.perform (h : generator.Numbered) (env : Environment) (call : Call) :
    (generator.perform env call).2.Numbered ∧
      ∀ tree, (generator.perform env call).1 = .tree (.ok tree) →
        tree.ReadBefore (generator.perform env call).2.session.numbered := by
  have hprompts {between : Generator} (hbetween : between.Numbered) (tree : Command)
      (count : Number) (method : Option Text) :
      (between.generateTree env tree count method).2.Numbered := fun other kept hother =>
    (between.numbered_generateTree env tree count method).symm ▸ hbetween other kept hother
  -- every call leaves the trees as they are, adds one behind its reading, or drops them all
  cases call with
  | parse source =>
    obtain ⟨hnumbered, hread⟩ := h.parse source
    exact ⟨hnumbered, fun tree htree => hread tree (Answer.tree.inj htree)⟩
  | generate subject count method =>
    refine ⟨?_, fun tree htree => absurd htree (by simp [perform_generate])⟩
    cases subject with
    | tree tree => exact hprompts h tree count method
    | template source =>
      have hparse := (h.parse source).1
      rw [perform_generate, generate]
      revert hparse
      generalize generator.parse source = parsed
      obtain ⟨result, between⟩ := parsed
      intro hparse
      cases result with
      | error error => exact hparse
      | ok tree => exact hprompts hparse tree count method
  | reset =>
    refine ⟨fun source tree hkept => ?_, fun tree htree => ?_⟩
    · cases hkept
    · cases htree

/-- No calls give a number back. -/
theorem numbered_le_after (generator : Generator) (env : Environment) (calls : List Call) :
    generator.session.numbered ≤ (generator.after env calls).session.numbered := by
  induction calls generalizing generator with
  | nil => exact Nat.le_refl _
  | cons call calls ih => exact Nat.le_trans (generator.numbered_le_perform env call) (ih _)

/-- The trees that calls answer were read before the number that is free after the calls. -/
theorem Numbered.answers (h : generator.Numbered) (env : Environment) {calls : List Call}
    {tree : Command} (htree : .tree (.ok tree) ∈ generator.answers env calls) :
    tree.ReadBefore (generator.after env calls).session.numbered := by
  induction calls generalizing generator with
  | nil => cases htree
  | cons call calls ih =>
    obtain ⟨hnumbered, hanswer⟩ := h.perform env call
    rcases List.mem_cons.1 htree with htree | htree
    · exact (hanswer tree htree.symm).mono (numbered_le_after _ env calls)
    · exact ih hnumbered htree

end Numbered

/-! ## 3. Resetting -/

/-- What is left of a generator that is reset, renumbered to go on from `start` and without what it
wrote down: a generator with the same settings, made to begin there, but for its draws. -/
theorem reset_renumbered {old : Generator} {declaration : GrammarDeclaration} {method : Text}
    {start : Nat} {fresh : Generator} (hfresh : create declaration method start = .ok fresh)
    (hsettings : old.SameSettings fresh) (hstart : old.session.numbered ≤ start) :
    (old.reset.withNotes fresh.session.asked fresh.session.notices).renumbered
        (.shift old.session.numbered start hstart) =
      { fresh with session := { fresh.session with drawn := old.session.drawn } } := by
  -- after the reset nothing is kept or turned, so only the numbers to come differ
  obtain ⟨-, hnew⟩ := eq_of_create hfresh
  have hsession : fresh.session.counters = .empty ∧ fresh.session.candidates = ⟨start, []⟩ ∧
      fresh.session.numbered = start + 1 ∧ fresh.trees = [] := by
    rw [hnew]
    exact ⟨rfl, rfl, rfl, rfl⟩
  obtain ⟨hcounters, hcandidates, hnumbered, htrees⟩ := hsession
  have hself : Renumbering.shift old.session.numbered start hstart old.session.numbered = start :=
    Renumbering.shift_add hstart 0
  have hnext := Renumbering.continues_shift hstart old.session.numbered (Nat.le_refl _)
  simp only [renumbered, withNotes, reset, Session.renumbered, CandidateTable.renumbered,
    Counters.renumbered, Counters.empty, hself, hnext, hsettings.declaration, hsettings.grammar,
    hsettings.method, hcandidates, hnumbered, htrees, hcounters, List.map_nil]

/-- **Resetting erases history.** Make a generator and put any calls to it: for templates with
wildcards, variables and markers, for trees, by any methods, with counts that are none and with
calls that fail. After a reset it answers all further calls as a generator does that was made with
the same options, has never been called, and whose draws begin where the old one's go on. What is
read from now on has other numbers in the new generator, which begins with any that is still free;
a tree that one of the earlier calls read is the same for both. Wildcards answer the same
throughout, as given collections do. -/
theorem answers_reset {declaration : GrammarDeclaration} {method : Text} {first start : Nat}
    {used fresh : Generator} (hused : create declaration method first = .ok used)
    (hfresh : create declaration method start = .ok fresh) (env : Environment)
    (history further : List Call) (hstart : (used.after env history).session.numbered ≤ start) :
    (∀ tree, .tree (.ok tree) ∈ used.answers env history →
      tree.renumbered (.shift _ start hstart) = tree) ∧
    ({ fresh with session :=
        { fresh.session with drawn := (used.after env history).session.drawn } }).answers env
        (further.map (Call.renumbered (.shift _ start hstart))) =
      ((used.after env history).reset.answers env further).map
        (Answer.renumbered (.shift _ start hstart)) := by
  refine ⟨fun tree htree =>
    ((numbered_of_create hused).answers env htree).renumbered_shift hstart, ?_⟩
  obtain ⟨hload, hnew⟩ := eq_of_create hfresh
  obtain ⟨hload', hnew'⟩ := eq_of_create hused
  have hsettings : (used.after env history).SameSettings fresh := by
    refine (used.after_settings env history).trans ?_
    rw [hnew, hnew']
    exact ⟨rfl, Except.ok.inj (hload'.symm.trans hload), rfl⟩
  generalize used.after env history = old at hstart hsettings ⊢
  -- what was asked for and reported does not matter, so let it be as in the new generator
  have hreset := old.reset.resembles_withNotes fresh.session.asked fresh.session.notices
  have hopens : old.reset.grammar.Opens := hsettings.grammar ▸ Grammar.opens_of_load hload
  have hcontinues := (Renumbering.continues_shift hstart).mono (Nat.le_succ old.session.numbered)
  rw [hreset.answers env further, ← reset_renumbered hfresh hsettings hstart]
  exact answers_renumbered (old.reset.withNotes fresh.session.asked fresh.session.notices) hopens
    hcontinues env further

/-- Draws of a seed, and one collection of wildcard values, one of which rotates itself. -/
def menagerie : Environment where
  grammar := .standard
  source := .seeded 7
  round := Binary64.round
  policy := .automatic
  resolve := Collections.answer ⟨[(units "pets", [units "cat", units "\x7bbig|small\x7d dog"])]⟩
  depthLimit := 40

/-- A block that takes turns. -/
def takingTurns : Text := units "\x7ba|b\x7d"

/-- Calls by two methods, for wildcards, for a template that can not be read and for one that is
read first. -/
def visit : List Call :=
  [.parse takingTurns, .generate (.template (units "__pets__ $\x7bx=\x7ba|b\x7d\x7d")) 3 none,
    .generate (.template (units "__pets__")) 2 (some (units "random")), .parse (units "\x7ba|")]

/-- Calls for the tree that was read before a reset, and for its template. -/
def revisit (tree : Command) : List Call :=
  [.generate (.tree tree) 1 none, .generate (.template takingTurns) 1 none,
    .generate (.template (units "__pets__")) 2 none]

/-- A generator of the standard grammar that rotates unless it is told otherwise. -/
def rotating (first : Nat) : Generator :=
  ⟨.absent, .standard, units "cyclical", [],
    { Session.fresh first with notices := [.builtParser Grammar.standard.key] }⟩

/-- The tree that the first visit reads. -/
def visitedTree : Command := ((rotating 0).parse takingTurns).1.toOption.getD default

/-- It is read. -/
theorem parse_visited : ((rotating 0).parse takingTurns).1 = .ok visitedTree := by
  have hread : ((rotating 0).parse takingTurns).1.isOk = true := by decide +kernel
  rw [visitedTree]
  revert hread
  cases ((rotating 0).parse takingTurns).1 with
  | error error => exact nofun
  | ok tree => exact fun _ => rfl

/-- After the reset the old tree and the template rotate apart, in both generators. -/
theorem answers_reset_of_visit :
    create .absent (units "cyclical") 0 = .ok (rotating 0) ∧
    create .absent (units "cyclical") 50 = .ok (rotating 50) ∧
    .tree (.ok visitedTree) ∈ (rotating 0).answers menagerie visit ∧
    ∃ hstart : ((rotating 0).after menagerie visit).session.numbered ≤ 50,
      ({ rotating 50 with session :=
          { (rotating 50).session with
            drawn := ((rotating 0).after menagerie visit).session.drawn } }).answers
          menagerie (revisit visitedTree) =
        (((rotating 0).after menagerie visit).reset.answers menagerie (revisit visitedTree)).map
          (Answer.renumbered (.shift _ 50 hstart)) ∧
      ((rotating 0).after menagerie visit).reset.answers menagerie (revisit visitedTree) =
        [.prompts (.ok [units "a"]), .prompts (.ok [units "a"]),
          .prompts (.ok [units "cat", units "big dog"])] := by
  -- the visit reads a template and walks it; the second one walks the old tree and reads it again
  have hused : create .absent (units "cyclical") 0 = .ok (rotating 0) := rfl
  have hfresh : create .absent (units "cyclical") 50 = .ok (rotating 50) := rfl
  have hvisited : .tree (.ok visitedTree) ∈ (rotating 0).answers menagerie visit := by
    rw [← parse_visited, visit, answers, perform_parse]
    exact List.mem_cons_self
  have hstart : ((rotating 0).after menagerie visit).session.numbered ≤ 50 := by decide +kernel
  obtain ⟨hkept, hanswers⟩ :=
    answers_reset hused hfresh menagerie visit (revisit visitedTree) hstart
  have hcalls : (revisit visitedTree).map (Call.renumbered (.shift _ 50 hstart)) =
      revisit visitedTree := by
    simp only [revisit, List.map_cons, List.map_nil, Call.renumbered, Subject.renumbered,
      hkept visitedTree hvisited]
  rw [hcalls] at hanswers
  refine ⟨hused, hfresh, hvisited, hstart, hanswers, ?_⟩
  simp only [revisit, answers, perform_generate, List.cons.injEq, Answer.prompts.injEq, and_true]
  decide +kernel

end Generator

end PromptTemplate
