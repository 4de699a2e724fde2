/-
`Candidates.lean` -- the trees of wildcard values.

Parsing the values of a wildcard fills the table of a session. It never changes what
the table gives for a value, because a value that is not there yet is parsed in the
one way in which it will be kept. So the trees are a function of the value
(`CandidateTable.tree`) that stays the same along a run: `Session.Reads` is that
invariant, and what a wildcard has for candidates (`wildcardTrees`) depends on nothing
else of the session.
-/
import PromptTemplate.Expansion.Session
import PromptTemplate.Proofs.Command.Everywhere
import PromptTemplate.Proofs.Results

set_option autoImplicit false

namespace PromptTemplate

/-! ## 1. The tree of a value -/

/-- The tree that a table gives for a value: the one that it keeps, or the one that it
would parse. -/
def CandidateTable.tree (g : Grammar) (table : CandidateTable) (value : Text) :
    Except WalkError Command :=
  match table.trees.lookup value with
  | some tree => .ok tree
  | none => (g.parse (.candidate table.number value) value).mapError .candidate

/-- The session gets these trees for the values of wildcards. -/
def Session.Reads (g : Grammar) (tree : Text → Except WalkError Command) (s : Session) : Prop :=
  ∀ value, s.candidates.tree g value = tree value

/-- The candidates of a wildcard, given the trees of its values. -/
def wildcardTrees (env : Environment) (tree : Text → Except WalkError Command) (name : Text)
    (method : Sampling) : Except WalkError (List Command) :=
  match env.resolve name with
  | .error error => .error (.load error)
  | .ok [] => if env.policy.refuses method then .error (.unresolved name method) else .ok []
  | .ok values => values.mapM tree

/-- Methods that the policy treats alike find the same candidates, if they find any. -/
theorem wildcardTrees_ok_of_refuses {env : Environment} {tree : Text → Except WalkError Command}
    {name : Text} {method other : Sampling}
    (halike : env.policy.refuses method = env.policy.refuses other) {candidates : List Command}
    (h : wildcardTrees env tree name method = .ok candidates) :
    wildcardTrees env tree name other = .ok candidates := by
  unfold wildcardTrees at h ⊢
  cases hresolve : env.resolve name with
  | error error => rw [hresolve] at h; cases h
  | ok values =>
    rw [hresolve] at h
    cases values with
    | nil =>
      -- only a name without values looks at the method
      simp only at h ⊢
      rw [halike] at h
      split at h
      · cases h
      · next hrefuses => rw [if_neg hrefuses, h]
    | cons value values => exact h

/-- Every candidate is the tree of a value that the resolver gives. -/
theorem exists_value_of_mem_wildcardTrees {env : Environment}
    {tree : Text → Except WalkError Command} {name : Text} {method : Sampling}
    {candidates : List Command} (h : wildcardTrees env tree name method = .ok candidates) :
    ∀ candidate ∈ candidates, ∃ values value, env.resolve name = .ok values ∧ value ∈ values ∧
      tree value = .ok candidate := by
  intro candidate hmem
  unfold wildcardTrees at h
  cases hresolve : env.resolve name with
  | error error => rw [hresolve] at h; cases h
  | ok values =>
    rw [hresolve] at h
    cases values with
    | nil =>
      simp only at h
      split at h
      · cases h
      · cases h; cases hmem
    | cons value values =>
      obtain ⟨found, hfound, htree⟩ := (values_of_mapM h).2.1 candidate hmem
      exact ⟨_, found, rfl, hfound, htree⟩

/-- There are as many candidates as values. -/
theorem length_of_wildcardTrees {env : Environment} {tree : Text → Except WalkError Command}
    {name : Text} {method : Sampling} {candidates : List Command}
    (h : wildcardTrees env tree name method = .ok candidates) :
    ∃ values, env.resolve name = .ok values ∧ candidates.length = values.length := by
  unfold wildcardTrees at h
  cases hresolve : env.resolve name with
  | error error => rw [hresolve] at h; cases h
  | ok values =>
    rw [hresolve] at h
    cases values with
    | nil =>
      simp only at h
      split at h
      · cases h
      · cases h
        exact ⟨[], rfl, rfl⟩
    | cons value values => exact ⟨_, rfl, (values_of_mapM h).1⟩

/-- Why a wildcard has no candidates: the resolver gives none, the policy refuses that there are no
values, or there is no tree of a value. -/
theorem cause_of_wildcardTrees {env : Environment} {tree : Text → Except WalkError Command}
    {name : Text} {method : Sampling} {error : WalkError}
    (h : wildcardTrees env tree name method = .error error) :
    (∃ fault, env.resolve name = .error fault ∧ error = .load fault) ∨
      (env.resolve name = .ok [] ∧ env.policy.refuses method = true ∧
        error = .unresolved name method) ∨
      ∃ values value, env.resolve name = .ok values ∧ value ∈ values ∧
        tree value = .error error := by
  unfold wildcardTrees at h
  cases hresolve : env.resolve name with
  | error fault =>
    rw [hresolve] at h
    cases h
    exact .inl ⟨fault, rfl, rfl⟩
  | ok values =>
    rw [hresolve] at h
    cases values with
    | nil =>
      simp only at h
      split at h
      · next hrefuses =>
        cases h
        exact .inr (.inl ⟨rfl, hrefuses, rfl⟩)
      · cases h
    | cons value values =>
      obtain ⟨found, hfound, htree⟩ := exists_of_mapM_error h
      exact .inr (.inr ⟨_, found, rfl, hfound, htree⟩)

/-- What every tree of a value has everywhere, every candidate has. -/
theorem everywhere_of_wildcardTrees {env : Environment} {tree : Text → Except WalkError Command}
    {p : Command → Prop} (htrees : ∀ name values value candidate, env.resolve name = .ok values →
      value ∈ values → tree value = .ok candidate → candidate.Everywhere p)
    (name : Text) (found : List Command)
    (h : wildcardTrees env tree name .combinatorial = .ok found) :
    ∀ candidate ∈ found, candidate.Everywhere p := by
  intro candidate hmem
  obtain ⟨values, value, hresolve, hvalue, htree⟩ :=
    exists_value_of_mem_wildcardTrees h candidate hmem
  exact htrees name values value candidate hresolve hvalue htree

/-! ### Nothing is drawn -/

theorem Session.drawn_parseCandidate (g : Grammar) (value : Text) (s : Session) :
    (Session.parseCandidate g value s).2.drawn = s.drawn := by
  unfold Session.parseCandidate
  split
  · rfl
  · split
    · rfl
    · rfl

theorem Session.drawn_parseCandidates (g : Grammar) (values : List Text) (s : Session) :
    (Session.parseCandidates g values s).2.drawn = s.drawn := by
  induction values generalizing s with
  | nil => rfl
  | cons value values ih =>
    have hfirst := drawn_parseCandidate g value s
    rw [Session.parseCandidates]
    split
    · next hrun => rw [hrun] at hfirst; exact hfirst
    · next tree after hrun =>
      rw [hrun] at hfirst
      -- reading may fail at any value; the session handed on is the one from that point
      have hrest := ih after
      split
      · next hrun' => rw [hrun'] at hrest; exact hrest.trans hfirst
      · next hrun' => rw [hrun'] at hrest; exact hrest.trans hfirst

/-- Asking for the candidates of a wildcard takes no draw. -/
theorem Session.drawn_wildcardCandidates (env : Environment) (name : Text) (method : Sampling)
    (s : Session) : (Session.wildcardCandidates env name method s).2.drawn = s.drawn := by
  unfold Session.wildcardCandidates
  split
  · rfl
  · split
    · rfl
    · rfl
  · exact drawn_parseCandidates env.grammar _ _

/-! ## 2. The invariant -/

namespace Session.Reads

variable {g : Grammar} {tree : Text → Except WalkError Command} {s : Session}

/-- One value: the tree is the one of the invariant, and the invariant is kept. What
was not in the table before is found behind everything else. -/
theorem parseCandidate (h : s.Reads g tree) (value : Text) :
    (Session.parseCandidate g value s).1 = tree value ∧
      (Session.parseCandidate g value s).2.Reads g tree := by
  have hvalue := h value
  unfold CandidateTable.tree at hvalue
  unfold Session.parseCandidate
  cases hlookup : s.candidates.trees.lookup value with
  | some kept =>
    rw [hlookup] at hvalue
    exact ⟨hvalue, h⟩
  | none =>
    rw [hlookup] at hvalue
    cases hparse : g.parse (.candidate s.candidates.number value) value with
    | error error =>
      rw [hparse] at hvalue
      exact ⟨hvalue, h⟩
    | ok parsed =>
      rw [hparse] at hvalue
      -- the table grows at its end: a value that was found before is found there still
      refine ⟨hvalue, fun other => ?_⟩
      have hother := h other
      unfold CandidateTable.tree at hother ⊢
      rw [List.lookup_append]
      cases hfound : s.candidates.trees.lookup other with
      | some kept =>
        rw [hfound] at hother
        exact hother
      | none =>
        rw [hfound] at hother
        by_cases hsame : other = value
        · subst hsame
          rw [List.lookup_cons_self, ← hvalue]
          rfl
        · rw [List.lookup_cons, beq_false_of_ne hsame]
          exact hother

theorem parseCandidates (values : List Text) : ∀ {s : Session}, s.Reads g tree →
    (Session.parseCandidates g values s).1 = values.mapM tree ∧
      (Session.parseCandidates g values s).2.Reads g tree := by
  induction values with
  | nil => exact fun h => ⟨rfl, h⟩
  | cons value values ih =>
    intro s h
    obtain ⟨hfirst, hkeeps⟩ := h.parseCandidate value
    rw [List.mapM_cons, ← hfirst, Session.parseCandidates]
    cases hparse : Session.parseCandidate g value s with
    | mk result after =>
      rw [hparse] at hkeeps
      cases result with
      | error error => exact ⟨rfl, hkeeps⟩
      | ok first =>
        obtain ⟨hrest, hkeeps'⟩ := ih hkeeps
        simp only [← hrest]
        cases hparses : Session.parseCandidates g values after with
        | mk result after =>
          rw [hparses] at hkeeps'
          cases result with
          | error error => exact ⟨rfl, hkeeps'⟩
          | ok rest => exact ⟨rfl, hkeeps'⟩

/-- Asking for a wildcard keeps the invariant, and what comes back is decided by the
trees alone. -/
theorem wildcardCandidates (env : Environment) (h : s.Reads env.grammar tree) (name : Text)
    (method : Sampling) :
    (Session.wildcardCandidates env name method s).1 = wildcardTrees env tree name method ∧
      (Session.wildcardCandidates env name method s).2.Reads env.grammar tree := by
  unfold Session.wildcardCandidates wildcardTrees
  cases env.resolve name with
  | error error => exact ⟨rfl, h⟩
  | ok values =>
    cases values with
    | nil =>
      simp only
      split
      · exact ⟨rfl, h⟩
      · exact ⟨rfl, h⟩
    | cons value values =>
      -- the name that was asked for is noted, which is none of the trees' business
      have hasked : Session.Reads env.grammar tree { s with asked := name :: s.asked } := h
      exact hasked.parseCandidates (value :: values)

end Session.Reads

end PromptTemplate
