/-
`Unread.lean` -- what a session writes down and nothing reads.

Of its session rendering reads the draws that were taken, the positions of the rotating nodes and
the trees of wildcard values, and reading a template takes the next number. What was asked for and
what there is to report is written down and never read. So two generators that agree on the rest and
on the templates that they keep give the same answers for ever (`Generator.Resembles`). Taken
between a generator and itself, this also says that rendering gives out no number.
-/
import PromptTemplate.Proofs.Generation.Prompts

set_option autoImplicit false

namespace PromptTemplate

/-! ## 1. Sessions -/

/-- The sessions agree on all that is read of them, and this is their next number. -/
structure Session.Resembles (numbered : Nat) (s t : Session) : Prop where
  drawn : s.drawn = t.drawn
  counters : s.counters = t.counters
  candidates : s.candidates = t.candidates
  mine : s.numbered = numbered
  yours : t.numbered = numbered

/-- The trees of values and the table behind them depend on the table alone. -/
theorem Session.parseCandidates_eq (g : Grammar) (values : List Text) (table : CandidateTable) :
    ∃ result after, ∀ s : Session, s.candidates = table →
      parseCandidates g values s = (result, { s with candidates := after }) := by
  induction values generalizing table with
  | nil => exact ⟨.ok [], table, fun s hs => by rw [← hs]; rfl⟩
  | cons value values ih =>
    -- what the first value leaves of the table, whatever the rest of the session
    obtain ⟨first, between, hfirst⟩ : ∃ first between, ∀ s : Session, s.candidates = table →
        parseCandidate g value s = (first, { s with candidates := between }) := by
      cases hlookup : table.trees.lookup value with
      | some tree =>
        refine ⟨.ok tree, table, fun s hs => ?_⟩
        rw [parseCandidate, hs, hlookup, ← hs]
      | none =>
        cases hparse : g.parse (.candidate table.number value) value with
        | error error =>
          refine ⟨.error (.candidate error), table, fun s hs => ?_⟩
          rw [parseCandidate, hs, hlookup]
          simp only [hparse]
          rw [← hs]
        | ok tree =>
          refine ⟨.ok tree, ⟨table.number, table.trees ++ [(value, tree)]⟩, fun s hs => ?_⟩
          rw [parseCandidate, hs, hlookup]
          simp only [hparse]
    cases first with
    | error error =>
      refine ⟨.error error, between, fun s hs => ?_⟩
      rw [parseCandidates, hfirst s hs]
    | ok tree =>
      obtain ⟨result, after, hrest⟩ := ih between
      cases result with
      | error error =>
        refine ⟨.error error, after, fun s hs => ?_⟩
        rw [parseCandidates, hfirst s hs]
        dsimp only
        rw [hrest _ rfl]
      | ok trees =>
        refine ⟨.ok (tree :: trees), after, fun s hs => ?_⟩
        rw [parseCandidates, hfirst s hs]
        dsimp only
        rw [hrest _ rfl]

namespace Likeness

/-- Sessions that resemble each other, with whatever errors. -/
def resembling (numbered : Nat) : Likeness where
  alike := Session.Resembles numbered
  allowed _ := True

/-- Asking for a wildcard reads nothing but the table. -/
theorem resembling_asking (env : Environment) (numbered : Nat) (name : Text) (method : Sampling) :
    (resembling numbered).Answers (fun _ => True)
      (Session.wildcardCandidates env name method) := by
  intro s t halike
  -- only the note of what was asked differs, and nothing is rendered from it
  have halike' : (resembling numbered).alike { s with asked := name :: s.asked }
      { t with asked := name :: t.asked } :=
    ⟨halike.drawn, halike.counters, halike.candidates, halike.mine, halike.yours⟩
  unfold Session.wildcardCandidates
  split
  · exact .error trivial halike'
  · split
    · exact .error trivial halike'
    · exact .ok trivial ⟨halike.drawn, halike.counters, halike.candidates, halike.mine,
        halike.yours⟩
  · next values _ _ =>
    obtain ⟨result, after, hparse⟩ := Session.parseCandidates_eq env.grammar values s.candidates
    rw [hparse { s with asked := name :: s.asked } rfl,
      hparse { t with asked := name :: t.asked } halike.candidates.symm]
    have hafter : (resembling numbered).alike
        { s with asked := name :: s.asked, candidates := after }
        { t with asked := name :: t.asked, candidates := after } :=
      ⟨halike.drawn, halike.counters, rfl, halike.mine, halike.yours⟩
    cases result with
    | error error => exact .error trivial hafter
    | ok trees => exact .ok trivial hafter

/-- All of rendering keeps it, with any wildcards, markers and methods. -/
theorem resembling_kept (env : Environment) (numbered : Nat) :
    (resembling numbered).Kept env .all (fun _ _ => True) where
  unknown _ := trivial
  tooDeep := trivial
  turn _ _ _ _ _ s t halike := by
    rw [halike.counters]
    exact ⟨rfl, halike.drawn, rfl, halike.candidates, halike.mine, halike.yours⟩
  draw _ _ _ _ halike :=
    ⟨halike.drawn, fun _ => ⟨rfl, halike.counters, halike.candidates, halike.mine, halike.yours⟩⟩
  option _ _ _ := .inl trivial
  candidate _ _ := .inl trivial
  asking _ text _ := resembling_asking env numbered text _
  passed _ _ _ _ _ := trivial

/-- What there is to report is not read. -/
theorem resembling_reports (numbered : Nat) : (resembling numbered).Reports :=
  fun _ _ _ halike =>
    ⟨halike.drawn, halike.counters, halike.candidates, halike.mine, halike.yours⟩

end Likeness

/-! ## 2. Generators -/

namespace Generator

/-- Two generators with the same settings, the same templates, and sessions that resemble each
other. -/
structure Resembles (a b : Generator) : Prop where
  settings : a.SameSettings b
  trees : a.trees = b.trees
  session : a.session.Resembles a.session.numbered b.session

theorem Resembles.refl (generator : Generator) : generator.Resembles generator :=
  ⟨⟨rfl, rfl, rfl⟩, rfl, rfl, rfl, rfl, rfl, rfl⟩

namespace Resembles

variable {a b : Generator} {env : Environment}

theorem parse (h : a.Resembles b) (source : Text) :
    (a.parse source).1 = (b.parse source).1 ∧
      (a.parse source).2.Resembles (b.parse source).2 := by
  obtain ⟨declaration, g, method, trees, s⟩ := a
  obtain ⟨declaration, g, method, trees, t⟩ := b
  obtain ⟨⟨rfl, rfl, rfl⟩, rfl, hsession⟩ := h
  dsimp only at hsession
  have hnext : t.numbered = s.numbered := hsession.yours
  -- both read under the same number, so the trees have the same labels
  unfold Generator.parse Session.parseTemplate
  dsimp only
  rw [hnext]
  split
  · exact ⟨rfl, ⟨rfl, rfl, rfl⟩, rfl, hsession⟩
  · generalize g.parse (.template s.numbered) source = result
    cases result <;>
      exact ⟨rfl, ⟨rfl, rfl, rfl⟩, rfl, hsession.drawn, hsession.counters, hsession.candidates, rfl,
        rfl⟩

theorem generateTree (h : a.Resembles b) (env : Environment) (tree : Command) (count : Number)
    (method : Option Text) :
    (a.generateTree env tree count method).1 = (b.generateTree env tree count method).1 ∧
      (a.generateTree env tree count method).2.Resembles
        (b.generateTree env tree count method).2 ∧
      (a.generateTree env tree count method).2.session.numbered = a.session.numbered := by
  obtain ⟨hanswer, hsession⟩ := Likeness.generateTree_alike
    (fun g => Likeness.resembling_kept { env with grammar := g } a.session.numbered)
    (Likeness.resembling_reports a.session.numbered) h.settings
    (fun _ _ => trivial) count h.session
  refine ⟨hanswer, ⟨⟨h.settings.declaration, h.settings.grammar, h.settings.method⟩, h.trees, ?_⟩,
    hsession.mine⟩
  rw [hsession.mine]
  exact hsession

theorem generate (h : a.Resembles b) (env : Environment) (subject : Subject) (count : Number)
    (method : Option Text) :
    (a.generate env subject count method).1 = (b.generate env subject count method).1 ∧
      (a.generate env subject count method).2.Resembles
        (b.generate env subject count method).2 := by
  cases subject with
  | tree tree =>
    obtain ⟨hanswer, hafter, -⟩ := h.generateTree env tree count method
    exact ⟨hanswer, hafter⟩
  | template source =>
    -- both read the template alike, whether they have kept it or not, and
    -- then generate from one tree
    have hparse := h.parse source
    unfold Generator.generate
    revert hparse
    dsimp only
    generalize a.parse source = mine, b.parse source = yours
    obtain ⟨mine, a⟩ := mine
    obtain ⟨yours, b⟩ := yours
    rintro ⟨rfl, hafter⟩
    cases mine with
    | error error => exact ⟨rfl, hafter⟩
    | ok tree =>
      obtain ⟨hanswer, hafter, -⟩ := hafter.generateTree env tree count method
      exact ⟨hanswer, hafter⟩

theorem reset (h : a.Resembles b) : a.reset.Resembles b.reset :=
  ⟨⟨h.settings.declaration, h.settings.grammar, h.settings.method⟩, rfl, h.session.drawn, rfl,
    by simp only [Generator.reset, h.session.yours], rfl, congrArg (· + 1) h.session.yours⟩

/-- One call: the same answer, and generators that resemble each other. -/
theorem perform (h : a.Resembles b) (env : Environment) (call : Call) :
    (a.perform env call).1 = (b.perform env call).1 ∧
      (a.perform env call).2.Resembles (b.perform env call).2 := by
  cases call with
  | parse source =>
    have hparse := h.parse source
    exact ⟨congrArg Answer.tree hparse.1, hparse.2⟩
  | generate subject count method =>
    have hgenerate := h.generate env subject count method
    exact ⟨congrArg Answer.prompts hgenerate.1, hgenerate.2⟩
  | reset => exact ⟨rfl, h.reset⟩

/-- Any calls: the same answers. -/
theorem answers (h : a.Resembles b) (env : Environment) (calls : List Call) :
    a.answers env calls = b.answers env calls := by
  induction calls generalizing a b with
  | nil => rfl
  | cons call calls ih =>
    obtain ⟨hanswer, hafter⟩ := h.perform env call
    rw [Generator.answers, Generator.answers, hanswer, ih hafter]

end Resembles

/-- The generator with other notes of what was asked for and of what there is to report. -/
def withNotes (generator : Generator) (asked : List Text) (notices : List Notice) : Generator :=
  { generator with session := { generator.session with asked := asked, notices := notices } }

/-- Notes are not read. -/
theorem resembles_withNotes (generator : Generator) (asked : List Text) (notices : List Notice) :
    generator.Resembles (generator.withNotes asked notices) :=
  ⟨⟨rfl, rfl, rfl⟩, rfl, rfl, rfl, rfl, rfl, rfl⟩

/-! ## 3. Numbers -/

variable (generator : Generator) (env : Environment)

/-- Prompts of a tree take no number. -/
theorem numbered_generateTree (tree : Command) (count : Number) (method : Option Text) :
    (generator.generateTree env tree count method).2.session.numbered =
      generator.session.numbered :=
  ((Resembles.refl generator).generateTree env tree count method).2.2

/-- A template that is read takes one. -/
theorem numbered_le_parse (source : Text) :
    generator.session.numbered ≤ (generator.parse source).2.session.numbered := by
  unfold parse Session.parseTemplate
  split
  · exact Nat.le_refl _
  · generalize generator.grammar.parse (.template generator.session.numbered) source = result
    cases result <;> exact Nat.le_succ _

/-- No call gives a number back. -/
theorem numbered_le_perform (call : Call) :
    generator.session.numbered ≤ (generator.perform env call).2.session.numbered := by
  -- a number is used by a reading; rendering uses none, and a reset moves to the next one
  cases call with
  | parse source => exact generator.numbered_le_parse source
  | generate subject count method =>
    cases subject with
    | tree tree => exact Nat.le_of_eq (generator.numbered_generateTree env tree count method).symm
    | template source =>
      have hparse := generator.numbered_le_parse source
      rw [perform_generate, generate]
      revert hparse
      generalize generator.parse source = parsed
      obtain ⟨result, between⟩ := parsed
      intro hparse
      cases result with
      | error error => exact hparse
      | ok tree =>
        exact Nat.le_trans hparse
          (Nat.le_of_eq (between.numbered_generateTree env tree count method).symm)
  | reset => exact Nat.le_succ _

end Generator

end PromptTemplate
