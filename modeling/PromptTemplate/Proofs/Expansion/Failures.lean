/-
`Failures.lean` -- in which ways rendering can fail.

Rendering fails at a variable that is not bound, at a wildcard without values where the policy
refuses that, and at a value of a wildcard that is no template (`WalkError.Documented`); besides,
it may go deeper than it is allowed to. It never misses what it reaches for: a place whose turn it
is comes out of a remainder, so it is in range whatever the counter says, and a draw is in range
because the sum of the weights of a variant is above zero and a number below one stays below when
the product is rounded. All this is one likeness, between each session and itself
(`Likeness.documented`), so the rules of the nodes and the methods that they pass on are those of
every likeness.
-/
import PromptTemplate.Proofs.Expansion.Candidates
import PromptTemplate.Proofs.Expansion.Kept
import PromptTemplate.Proofs.Expansion.Seeds
import PromptTemplate.Proofs.Template.Origins
import PromptTemplate.Proofs.Template.Parsing

set_option autoImplicit false

namespace PromptTemplate

/-! ## 1. What is given -/

/-- Arithmetic on the grid, draws of the grid between zero and one, a grammar that can be declared,
and wildcards that have an answer for every name, with less than 2 ^ 32 values. -/
structure Environment.Dependable (env : Environment) : Prop where
  round : env.round = Binary64.round
  unit : env.source.InUnit
  rounded : ∀ draw, (env.source draw).Rounded
  grammar : ∃ declaration : GrammarDeclaration, Grammar.load declaration = .ok env.grammar
  answers : ∀ name, ∃ values, env.resolve name = .ok values ∧ values.length < 2 ^ 32

/-- The table of the session gives for each value what reading it gives. -/
def Session.ReadsAs (g : Grammar) (number : Nat) (s : Session) : Prop :=
  s.Reads g fun value => (g.parse (.candidate number value) value).mapError .candidate

/-- A table without trees gives nothing else. -/
theorem Session.fresh_readsAs (g : Grammar) (number : Nat) :
    (Session.fresh number).ReadsAs g number :=
  fun _ => rfl

/-! ## 2. What can go wrong -/

/-- The documented ways to fail: at a variable that is not bound, at a wildcard for which there are
no values, where the policy refuses that always or the method of this very wildcard is to draw and
the policy refuses it then, and at a value of a wildcard that can not be read, because of its
syntax, of bounds the wrong way round or of a name that is refused. The wildcard is one that
rendering came to, in the manner in which it did, and it can have the name. -/
inductive WalkError.Documented (env : Environment) (number : Nat)
    (visited : Manner → Command → Prop) : WalkError → Prop
  | unknownVariable (name : Text) : Documented env number visited (.unknownVariable name)
  | unresolved {manner : Manner} {label : Label} {own : WildcardName Command}
      {inlined : List (Text × Command)} {sampling : Option Sampling} {name : Text}
      (node : visited manner (.wildcard label own inlined sampling)) (spells : own.Spells name)
      (none : env.resolve name = .ok [])
      (policy : env.policy = .error ∨
        env.policy = .automatic ∧ sampling.getD manner.method = .random) :
      Documented env number visited (.unresolved name (sampling.getD manner.method))
  | candidate {manner : Manner} {label : Label} {own : WildcardName Command}
      {inlined : List (Text × Command)} {sampling : Option Sampling} {name value : Text}
      {values : List Text} {error : ParseError}
      (node : visited manner (.wildcard label own inlined sampling)) (spells : own.Spells name)
      (answer : env.resolve name = .ok values) (member : value ∈ values)
      (parse : env.grammar.parse (.candidate number value) value = .error error)
      (proper : error.Proper) : Documented env number visited (.candidate error)

theorem EmptyPolicy.refuses_iff {policy : EmptyPolicy} {method : Sampling} :
    policy.refuses method = true ↔
      policy = .error ∨ policy = .automatic ∧ method = .random := by
  cases policy <;> cases method <;> decide

/-- The run fails in these ways only, also if it is resumed with other sessions that are known. -/
inductive Run.FailsOnly (known : Session → Prop) (allowed : WalkError → Prop) : Run → Prop
  | done (after : Session) : FailsOnly known allowed (.done after)
  | fail {error : WalkError} (h : allowed error) (after : Session) :
    FailsOnly known allowed (.fail error after)
  | yield (branch : Branch) (after : Session) {rest : Branches}
      (h : ∀ s, known s → FailsOnly known allowed (rest s)) :
    FailsOnly known allowed (.yield branch after rest)

namespace Likeness

/-- A session and itself, as long as it reads values as they are; failing as documented, or for
going too deep. -/
def documented (env : Environment) (number : Nat) (visited : Manner → Command → Prop) :
    Likeness where
  alike s t := s = t ∧ s.ReadsAs env.grammar number
  allowed error := error = .tooDeep ∨ error.Documented env number visited

theorem Runs.failsOnly {env : Environment} {number : Nat} {visited : Manner → Command → Prop}
    {settled : Scope → Prop} {run other : Run}
    (h : (documented env number visited).Runs settled run other) :
    run.FailsOnly (Session.ReadsAs env.grammar number)
      fun error => error = .tooDeep ∨ error.Documented env number visited := by
  induction h with
  | done => exact .done _
  | fail hallowed _ => exact .fail hallowed _
  | yield _ _ _ ih => exact .yield _ _ fun s hs => ih s s ⟨rfl, hs⟩

section Documented

variable {env : Environment} (henv : env.Dependable) {number : Nat}

/-- The trees that a wildcard of a name may get: few enough to draw from, and each read from a value
of that name. -/
def Offered (env : Environment) (number : Nat) (own : WildcardName Command)
    (found : List Command) : Prop :=
  found.length < 2 ^ 32 ∧ ∀ candidate ∈ found, ∃ name values value, own.Spells name ∧
    env.resolve name = .ok values ∧ value ∈ values ∧
      env.grammar.parse (.candidate number value) value = .ok candidate

include henv

/-- Asking for a wildcard that rendering comes to gives trees that were read from its values, or
fails as documented. -/
theorem documented_asking {visited : Manner → Command → Prop} {manner : Manner} {label : Label}
    {own : WildcardName Command} {inlined : List (Text × Command)} {sampling : Option Sampling}
    (hvisited : visited manner (.wildcard label own inlined sampling)) {name : Text}
    (hspells : own.Spells name) :
    (documented env number visited).Answers (Offered env number own)
      (Session.wildcardCandidates env name (sampling.getD manner.method)) := by
  rintro s _ ⟨rfl, hreads⟩
  obtain ⟨hfound, hafter⟩ :=
    Session.Reads.wildcardCandidates env hreads name (sampling.getD manner.method)
  obtain ⟨values, hanswer, hlength⟩ := henv.answers name
  revert hfound hafter
  generalize Session.wildcardCandidates env name (sampling.getD manner.method) s = run
  obtain ⟨result, after⟩ := run
  rintro hfound hafter
  -- the answer has so many candidates as values, each read from one of them
  cases result with
  | ok found =>
    refine .ok ⟨?_, fun candidate hmem => ?_⟩ ⟨rfl, hafter⟩
    · obtain ⟨listed, hlisted, hsame⟩ := length_of_wildcardTrees hfound.symm
      rw [hanswer] at hlisted
      cases hlisted
      rw [hsame]
      exact hlength
    · obtain ⟨listed, value, hlisted, hvalue, htree⟩ :=
        exists_value_of_mem_wildcardTrees hfound.symm candidate hmem
      exact ⟨name, listed, value, hspells, hlisted, hvalue, ok_of_mapError htree⟩
  | error error =>
    refine .error (.inr ?_) ⟨rfl, hafter⟩
    -- a lookup fails at the resolver, for want of values, or at the first
    -- value that is no template
    rcases cause_of_wildcardTrees hfound.symm with ⟨fault, hfault, -⟩ | ⟨hnone, hrefuses, rfl⟩ |
      ⟨listed, value, hlisted, hvalue, htree⟩
    · rw [hanswer] at hfault
      cases hfault
    · exact .unresolved hvisited hspells hnone (EmptyPolicy.refuses_iff.1 hrefuses)
    · obtain ⟨fault, hparse, rfl⟩ := exists_of_mapError htree
      obtain ⟨declaration, hload⟩ := henv.grammar
      have hproper :=
        Template.parse_proper (Grammar.opens_of_load hload) (.candidate number value) value
      rw [hparse] at hproper
      exact .candidate hvisited hspells hlisted hvalue hparse hproper

/-- All that rendering a tree comes to, with weights on the grid, also in the bindings of the
scope and in the trees of wildcard values. -/
abbrev inReach (env : Environment) (number : Nat) (tree : Command) (manner : Manner)
    (scope : Scope) : Reach :=
  (Reach.visited env number tree manner scope).and
    (.everywhere Command.Weighed (fun _ => True) (fun _ => trivial) fun _ _ => trivial)

/-- All of rendering keeps it, in whatever manner it begins. -/
theorem documented_kept (number : Nat) (tree : Command) (manner : Manner) (scope : Scope) :
    (documented env number (Visited env number tree manner scope)).Kept env
      (inReach env number tree manner scope) (Offered env number) where
  unknown name := .inr (.unknownVariable name)
  tooDeep := .inl rfl
  -- a turn, like a draw, moves the counters only; what was read stays as it was
  turn := by
    rintro _ _ _ - - - _ - s _ ⟨rfl, hreads⟩
    exact ⟨rfl, rfl, hreads⟩
  draw := by
    rintro _ _ - - s _ ⟨rfl, hreads⟩
    exact ⟨rfl, fun _ => ⟨rfl, hreads⟩⟩
  option := by
    intro _ label options least most separator sampling hvisited _ heligible
    have hweights : ∀ weight ∈ options.map (·.weight), OnGrid weight := by
      intro weight hmem
      obtain ⟨option, hoption, rfl⟩ := List.mem_map.1 hmem
      exact hvisited.2.1.here option hoption
    -- with rounded weights a draw still falls on an option, and a number below one on a candidate
    refine .inr fun drawn => ?_
    obtain ⟨index, hindex, hdraw⟩ :=
      weightedIndex_lt hweights (exists_pos_of_eligible_ne_nil heligible) env.source drawn
    rw [List.length_map] at hindex
    exact ⟨index, by rw [henv.round, hdraw], hindex⟩
  candidate := by
    intro _ members hoffered hsome
    refine .inr fun drawn => ?_
    obtain ⟨v, hdraw, hlow, hhigh⟩ := henv.unit drawn
    rw [henv.round, hdraw]
    exact Binary64.place_of_draw hlow (henv.rounded drawn v hdraw) hhigh
      (List.length_pos_iff.2 hsome) hoffered.1
  asking hvisited _ hspells := documented_asking henv hvisited.1 hspells
  passed := by
    intro _ _ _ _ _ hvisited _ hoffered candidate hmem
    obtain ⟨name, values, value, hspells, hlisted, hvalue, hparse⟩ := hoffered.2 candidate hmem
    exact ⟨.candidate hvisited.1 hspells hlisted hvalue hparse,
      (Grammar.parse_readFrom hparse).mono fun node hnode => hnode.weighed, Reach.permits_all _ _⟩

end Documented

end Likeness

/-! ## 3. Whole trees -/

/-- The choices of a variant hold indices of its options. -/
theorem lt_length_of_mem_variantChoices {options : List (Weighted Command)} {least most : Nat}
    {choice : List Nat} (h : choice ∈ variantChoices (options.map (·.weight)) least most)
    {index : Nat} (hindex : index ∈ choice) : index < options.length := by
  obtain ⟨size, -, hchoice⟩ := List.mem_flatMap.1 h
  obtain ⟨-, weight, hweight, -⟩ :=
    mem_eligibleFrom.1 ((sublist_of_mem_combinations hchoice).subset hindex)
  obtain ⟨hlt, -⟩ := List.getElem?_eq_some_iff.1 hweight
  rwa [List.length_map, Nat.sub_zero] at hlt

/-- **Generation fails only in the documented ways.** Let the weights of all variants in reach be
numbers of the grid, as they are in trees that were read or constructed. Then from any counters,
after any draws and behind any text, rendering by any method gives a text or fails as documented,
or because it goes too deep; and so does every branch of the enumeration, also if the session goes
on elsewhere between two branches. In particular a wildcard without values is an error only if the
policy refuses the method of a wildcard that rendering came to under this name: the one that it
declares, or else the one that came down to it from the nodes around it. No place is missed: this
is none of the ways to fail, and the choices of a variant hold indices of its options. -/
theorem rendering_fails_as_documented {env : Environment} (henv : env.Dependable) {number : Nat}
    {command : Command} (hcommand : command.Everywhere Command.Weighed) {scope : Scope}
    (hscope : scope.Everywhere Command.Weighed) (ambient : Text) {s : Session}
    (hs : s.ReadsAs env.grammar number) :
    (∀ method,
      (∃ text after, renderOnce env command method ambient ⟨scope, s⟩ = (.ok text, after)) ∨
      ∃ error after, renderOnce env command method ambient ⟨scope, s⟩ = (.error error, after) ∧
        (error = .tooDeep ∨
          error.Documented env number (Visited env number command (.walked method) scope))) ∧
    (enumerate env command scope ambient s).FailsOnly (Session.ReadsAs env.grammar number)
      (fun error => error = .tooDeep ∨
        error.Documented env number (Visited env number command .enumerated scope)) ∧
    ∀ (options : List (Weighted Command)) (least most : Nat),
      ∀ choice ∈ variantChoices (options.map (·.weight)) least most,
        ∀ index ∈ choice, index < options.length := by
  -- the node itself is reached, and a value of the given scope is reached through its name
  have hadmits : ∀ manner,
      (Contract.reaching (Likeness.inReach env number command manner scope) manner).admits
        [command] scope := by
    refine fun manner =>
      ⟨List.forall_mem_singleton.2 ⟨.root, hcommand, Reach.permits_all _ manner⟩, ?_⟩
    exact fun name binding hlookup value hvalue =>
      ⟨.given hlookup hvalue, Scope.everywhere_iff.1 hscope name binding hlookup value hvalue⟩
  refine ⟨fun method => ?_, ?_,
    fun options least most choice hchoice index => lt_length_of_mem_variantChoices hchoice⟩
  · have hkept := Likeness.documented_kept henv number command (.walked method) scope
    have hwalks : (Likeness.documented env number _).Walks _ scope
        (renderOnce env command method ambient) :=
      hkept.walks_within env.depthLimit method command scope ambient (hadmits _)
    have hends := hwalks s s ⟨rfl, hs⟩
    revert hends
    generalize renderOnce env command method ambient ⟨scope, s⟩ = run
    intro hends
    cases hends with
    | ok => exact .inl ⟨_, _, rfl⟩
    | error hallowed => exact .inr ⟨_, _, rfl, hallowed⟩
  · have hkept := Likeness.documented_kept henv number command .enumerated scope
    have hyields : (Likeness.documented env number _).Yields _
        (enumerate env command scope ambient) :=
      hkept.yields_within env.depthLimit command scope ambient (hadmits _)
    exact (hyields s s ⟨rfl, hs⟩).failsOnly

/-- Draws of a seed, and a kennel of two animals, one of which is no template. -/
def kennel : Environment where
  grammar := .standard
  source := .seeded 7
  round := Binary64.round
  policy := .automatic
  resolve name := .ok (if name = units "pets" then [units "cat", units "\x7bdog|"] else [])
  depthLimit := 40

theorem kennel_dependable : kennel.Dependable where
  round := rfl
  unit := Source.seeded_inUnit 7
  rounded := Source.seeded_rounded 7
  grammar := ⟨.absent, rfl⟩
  answers name := by
    refine ⟨_, rfl, ?_⟩
    split <;> decide

/-- A weighted choice that rotates, and a wildcard that has no values and is drawn from although it
is rotated around it. -/
def kennelSource : Text := units "\x7b2::a|.5::b\x7d __~none__"

theorem rendering_fails_as_documented_of_kennel :
    ∃ tree, Grammar.standard.parse (.built 0) kennelSource = .ok tree ∧
      tree.Everywhere Command.Weighed ∧
      (∃ after, renderOnce kennel tree .cyclical [] ⟨.root [], .fresh 0⟩ =
          (.error (.unresolved (units "none") .random), after) ∧
        WalkError.Documented kennel 0 (Visited kennel 0 tree (.walked .cyclical) (.root []))
          (.unresolved (units "none") .random)) ∧
      (enumerate kennel tree (.root []) [] (.fresh 0)).FailsOnly (Session.ReadsAs .standard 0)
        fun error => error = .tooDeep ∨
          error.Documented kennel 0 (Visited kennel 0 tree .enumerated (.root [])) := by
  -- one evaluation says that the template is read and how its walk fails; the tree stays a name
  have hread : (Grammar.standard.parse (.built 0) kennelSource).toOption.any (fun tree =>
      decide ((renderOnce kennel tree .cyclical [] ⟨.root [], .fresh 0⟩).1 =
        .error (.unresolved (units "none") .random))) = true := by
    decide +kernel
  obtain ⟨tree, htree, hfails⟩ := (Option.any_eq_true _ _).1 hread
  have hparse : Grammar.standard.parse (.built 0) kennelSource = .ok tree := by
    cases hrun : Grammar.standard.parse (.built 0) kennelSource with
    | error error =>
      rw [hrun] at htree
      cases htree
    | ok read =>
      rw [hrun] at htree
      cases htree
      rfl
  have hcommand : tree.Everywhere Command.Weighed :=
    (Grammar.parse_readFrom hparse).mono fun node hnode => hnode.weighed
  have hs : (Session.fresh 0).ReadsAs kennel.grammar 0 := Session.fresh_readsAs _ 0
  obtain ⟨hrender, henumerate, -⟩ := rendering_fails_as_documented kennel_dependable hcommand
    (Scope.everywhere_root _) [] hs
  refine ⟨tree, hparse, hcommand, ?_, henumerate⟩
  have hfirst := of_decide_eq_true hfails
  rcases hrender .cyclical with ⟨text, after, hrun⟩ | ⟨error, after, hrun, hdocumented⟩
  · rw [hrun] at hfirst
    cases hfirst
  · rw [hrun] at hfirst
    cases hfirst
    exact ⟨after, hrun, hdocumented.resolve_left nofun⟩

/-- A kennel with one animal, which gives inline variables a name that is refused. -/
def closedKennel : Environment :=
  { kennel with resolve := fun name => .ok (if name = units "pets" then [refusedSource] else []) }

/-- Among the values that can not be read there are some whose syntax and bounds are in order. -/
theorem rendering_fails_at_refusedSource :
    closedKennel.Dependable ∧ ∃ error after,
      renderOnce closedKennel (.wildcard ⟨[0], .built 0⟩ (.fixed (units "pets")) [] none) .random []
        ⟨.root [], .fresh 0⟩ = (.error (.candidate error), after) ∧
      (∀ e, error ≠ .malformed e) ∧
      ∀ least most, error ≠ .refused (.invertedBounds least most) := by
  have hfails : (renderOnce closedKennel (.wildcard ⟨[0], .built 0⟩ (.fixed (units "pets")) [] none)
      .random [] ⟨.root [], .fresh 0⟩).1 =
        .error (.candidate (.readOnly (units "type") (units "#<Object>"))) := by
    decide +kernel
  have hdependable : closedKennel.Dependable :=
    { kennel_dependable with answers := fun name => ⟨_, rfl, by split <;> decide⟩ }
  revert hfails
  generalize renderOnce closedKennel _ .random [] ⟨.root [], .fresh 0⟩ = run
  obtain ⟨result, after⟩ := run
  rintro rfl
  exact ⟨hdependable, _, after, rfl, nofun, nofun⟩

end PromptTemplate
