/-
`Exchanging.lean` -- a chance and the variant of nothing and its part are exchangeable.

Where nothing is drawn, putting a part in by chance is choosing between nothing and the part. So
in a tree that draws nowhere, up to what the part itself may do, one form can stand in for the
other: the enumeration yields the same texts in the same order with the same end, in scopes that
differ at most in the form which a variable keeps, and walks by turns that share their counters
come to the same texts and errors. Both forms carry one label, as one node does, so their turns
are counted together. The variant goes one node deeper where it leaves the part out; that is all
that the depth limit can tell of the two.
-/
import PromptTemplate.Command.Build
import PromptTemplate.Proofs.Expansion.Occurrences
import PromptTemplate.Proofs.Expansion.PairedBranches

set_option autoImplicit false

namespace PromptTemplate

/-! ## 1. Walks in one session -/

/-- Renders a tree by turns, once from each scope and behind each text, in one session. An error
ends one of the walks, and the next one follows. -/
def renderTurns (render : Renderer) (command : Command) :
    List (Scope × Text) → Session → List (Except WalkError Text) × Session
  | [], s => ([], s)
  | (scope, ambient) :: starts, s =>
    let (result, w) := render command .cyclical ambient ⟨scope, s⟩
    let (results, s) := renderTurns render command starts w.session
    (result :: results, s)

/-- Walks that go together one by one come to the same results in one session, unless one of the
first ones comes to its depth limit. -/
theorem Together.renderTurns_eq {known : Session → Prop} {mine yours : Renderer}
    {command other : Command} {starts others : List (Scope × Text)}
    (h : List.Forall₂ (fun start other' => ∃ post, Walks known post start.1 other'.1
      (mine command .cyclical start.2) (yours other .cyclical other'.2)) starts others)
    {s : Session} (hs : known s) (hdeep : .error .tooDeep ∉ (renderTurns mine command starts s).1) :
    renderTurns mine command starts s = renderTurns yours other others s := by
  induction h generalizing s with
  | nil => rfl
  | @cons start other' starts others hwalks _ ih =>
    obtain ⟨post, hwalk⟩ := hwalks
    have hends := hwalk s hs
    simp only [renderTurns, List.mem_cons, not_or] at hdeep ⊢
    revert hends hdeep
    generalize mine command .cyclical start.2 ⟨start.1, s⟩ = first,
      yours other .cyclical other'.2 ⟨other'.1, s⟩ = second
    -- the two walks agree, or both failed alike, or one was too deep, which is excluded
    rintro (⟨-, -, -, hs⟩ | hs | _) ⟨hfirst, hrest⟩
    · rw [ih hs hrest]
    · rw [ih hs hrest]
    · exact absurd rfl hfirst

/-! ## 2. Scopes to start from -/

/-- The scopes bring in nothing that draws, and they answer alike; or, if the part does not draw
either, alike up to the form of the part. -/
structure Inclusion.Starts (x : Inclusion) (a b : Scope) : Prop where
  never : a.Everywhere Command.NeverDraws
  alike : a.Agrees b ∨ (x.value.Everywhere Command.NeverDraws ∧ a.Exchanged x.Forms b)

section Starts

variable {x : Inclusion} {command other : Command} {a b : Scope}

theorem Inclusion.Forms.everywhere (h : x.Forms command other) (hdraws : x.sampling ≠ some .random)
    (hvalue : x.value.Everywhere Command.NeverDraws) : command.Everywhere Command.NeverDraws := by
  have hnothing : (Command.literal []).Everywhere Command.NeverDraws :=
    .node _ (.of_declared_eq_none rfl) (List.forall_mem_nil _)
  refine .node _ (by rw [Command.NeverDraws, h.declared]; exact hdraws) fun part hmem => ?_
  rcases h with ⟨rfl, -⟩ | ⟨rfl, -⟩
  · rw [List.mem_singleton.1 hmem]
    exact hvalue
  · rcases List.mem_cons.1 hmem with rfl | hmem
    · exact hnothing
    · rw [List.mem_singleton.1 hmem]
      exact hvalue

/-- From such scopes a tree with the part and its double are rendered side by side, and scopes that
are left answer alike up to the form of the part. -/
theorem Inclusion.Starts.exists_pairing (h : x.Starts a b) (hdraws : x.sampling ≠ some .random)
    (hreplaced : command.Replaced Command.NeverDraws x.Forms other) :
    ∃ π : Pairing x (Command.Everywhere Command.NeverDraws),
      (∀ method, method ≠ .random → π.admits method [(command, other)] a b) ∧
      ∀ method a' b', π.admits method [] a' b' → a'.Exchanged x.Forms b' := by
  rcases h.alike with hagrees | ⟨hvalue, hexchanged⟩
  · refine ⟨.once x hdraws, fun method hmethod => ?_, fun _ _ _ => Pairing.Once.exchanged⟩
    exact .quiet none hmethod (.single hreplaced) (.inl rfl) (.of_agrees hagrees h.never)
  · refine ⟨.throughout x, fun method hmethod => ?_, fun _ _ _ h => h.scopes⟩
    exact ⟨hmethod, List.forall_mem_singleton.2 ⟨hreplaced.exchanged,
      hreplaced.everywhere fun hforms => hforms.everywhere hdraws hvalue⟩, hexchanged, h.never⟩

end Starts

/-! ## 3. Depth -/

section Depth

variable {env : Environment} {tree : Text → Except WalkError Command}

/-- Branches that go together with the same ones go together. -/
theorem Together.forall₂_of_common {swap : Command → Command → Prop}
    {mine yours common : List Branch}
    (hmine : List.Forall₂ (Match (Scope.Exchanged swap)) mine common)
    (hyours : List.Forall₂ (Match Scope.Agrees) yours common) :
    List.Forall₂ (Match (Scope.Exchanged swap)) mine yours := by
  induction hmine generalizing yours with
  | nil =>
    cases hyours
    exact .nil
  | cons hfirst _ ih =>
    cases hyours with
    | cons hother hothers =>
      refine .cons ⟨hfirst.text.trans hother.text.symm, fun name => ?_⟩ (ih hothers)
      rw [hother.scope name]
      exact hfirst.scope name

/-- Higher limits change nothing of an enumeration that does not come to its own. -/
theorem enumerate_deeper (x : Inclusion) (command : Command) {depth deep : Nat}
    (hdeep : depth < deep) (scope : Scope) (ambient : Text) :
    Together.Yields (Session.Reads env.grammar tree) Scope.Agrees
      (enumerate { env with depthLimit := depth } command scope ambient)
      (enumerate { env with depthLimit := deep } command scope ambient) := by
  have htwin : (Pairing.same x fun _ => True).admits .combinatorial [(command, command)]
      scope scope :=
    Pairing.same_admits _ _ _
  have hdeeper : (Pairing.same x fun _ => True).Enumerates (Session.Reads env.grammar tree)
      (enumerate { env with depthLimit := depth }) (enumerate { env with depthLimit := deep }) :=
    Pairing.enumerates_within _ { env with depthLimit := depth } (fun _ _ _ _ _ _ =>
      trivial) hdeep hdeep
  refine (hdeeper.branches htwin ambient).mono fun a b hsettles => ?_
  exact (hsettles .combinatorial [] htwin htwin).scopes

/-- Nor of walks that do not come to theirs. -/
theorem renderTurns_deeper (x : Inclusion) (command : Command) {depth deep : Nat}
    (hdeep : depth < deep) (starts : List (Scope × Text)) {s : Session}
    (hs : s.Reads env.grammar tree)
    (hends : .error .tooDeep ∉ (renderTurns (renderWithin env depth) command starts s).1) :
    renderTurns (renderWithin env depth) command starts s =
      renderTurns (renderWithin env deep) command starts s := by
  have hdeeper : (Pairing.same x fun _ => True).Renders (Session.Reads env.grammar tree)
      (renderWithin env depth) (renderWithin env deep) :=
    Pairing.renders_within _ (fun _ _ _ _ _ _ => trivial) hdeep
  refine Together.renderTurns_eq (List.forall₂_same.2 fun start _ => ?_) hs hends
  exact ⟨_, hdeeper.walks (Pairing.same_admits .cyclical command start.1) start.2⟩

end Depth

/-! ## 4. The theorem -/

section Exchanged

variable {env : Environment} {x : Inclusion} {command other : Command} {s : Session}
  (hdraws : x.sampling ≠ some .random)
  (hreplaced : command.Replaced Command.NeverDraws x.Forms other)
  (hcandidates : ∀ name values value tree, env.resolve name = .ok values → value ∈ values →
    s.candidates.tree env.grammar value = .ok tree → tree.Everywhere Command.NeverDraws)
include hdraws hreplaced hcandidates

omit hdraws hreplaced in
theorem found_never_draw (name : Text) (method : Sampling) (found : List Command)
    (htrees : wildcardTrees env (s.candidates.tree env.grammar) name method = .ok found) :
    ∀ candidate ∈ found, candidate.Everywhere Command.NeverDraws := by
  intro candidate hmem
  obtain ⟨values, value, hresolve, hvalue, htree⟩ :=
    exists_value_of_mem_wildcardTrees htrees candidate hmem
  exact hcandidates name values value candidate hresolve hvalue htree

/-- The enumeration of the double, where it may go deeper. -/
theorem enumerate_exchanged {limit : Nat} (hlimit : env.depthLimit < limit) {a b : Scope}
    (hstarts : x.Starts a b) (ambient : Text) :
    Together.Yields (Session.Reads env.grammar (s.candidates.tree env.grammar))
      (Scope.Exchanged x.Forms) (enumerate env command a ambient)
      (enumerate { env with depthLimit := limit } other b ambient) := by
  obtain ⟨π, hadmits, hexchanged⟩ := hstarts.exists_pairing hdraws hreplaced
  have hstart := hadmits .combinatorial nofun
  have hbranches := (π.enumerates_within env (found_never_draw hcandidates) hlimit hlimit).branches
    hstart ambient
  exact hbranches.mono fun a' b' hsettles =>
    hexchanged _ _ _ (hsettles .combinatorial [] hstart hstart)

/-- The walks over the double, where they may go deeper. -/
theorem renderTurns_exchanged {limit : Nat} (hlimit : env.depthLimit < limit)
    {starts others : List (Scope × Text)}
    (hstarts : List.Forall₂ (fun start other' => x.Starts start.1 other'.1 ∧ start.2 = other'.2)
      starts others)
    (hends : .error .tooDeep ∉ (renderTurns (renderOnce env) command starts s).1) :
    renderTurns (renderOnce env) command starts s =
      renderTurns (renderWithin env limit) other others s := by
  have hs : s.Reads env.grammar (s.candidates.tree env.grammar) := fun _ => rfl
  refine Together.renderTurns_eq (hstarts.imp fun start other' hstart => ?_) hs hends
  obtain ⟨hstart, hambient⟩ := hstart
  obtain ⟨π, hadmits, -⟩ := hstart.exists_pairing hdraws hreplaced
  rw [← hambient]
  exact ⟨_, (π.renders_within (found_never_draw hcandidates) hlimit).walks
    (hadmits .cyclical nofun) start.2⟩

end Exchanged

/-- **A chance is the variant of nothing and its part.** Take a tree in which the part occurs in one
of its two forms, and its double with the other form there. Nothing else in them draws, and
neither do the values of wildcards and what the scopes to start from bring in. Then the enumerations
of both yield the same texts in the same order, in scopes that answer every name alike up to the
form of the part, with the same end and in one session. And walks by turns that follow each other
in one session come to the same texts and errors, however many they are. This holds where
neither comes to its depth limit, and it is enough for the second one to be allowed one node more
than the first. -/
theorem forms_exchangeable (env : Environment) (limit : Nat) {x : Inclusion}
    {command other : Command} {s : Session} (hdraws : x.sampling ≠ some .random)
    (hreplaced : command.Replaced Command.NeverDraws x.Forms other)
    (hcandidates : ∀ name values value tree, env.resolve name = .ok values → value ∈ values →
      s.candidates.tree env.grammar value = .ok tree → tree.Everywhere Command.NeverDraws) :
    (∀ (a b : Scope) (ambient : Text) (count : Option Nat), x.Starts a b →
      let mine := (enumerate env command a ambient).take count s
      let yours := (enumerate { env with depthLimit := limit } other b ambient).take count s
      mine.2.1 ≠ .failed .tooDeep → env.depthLimit < limit ∨ yours.2.1 ≠ .failed .tooDeep →
      List.Forall₂ (Together.Match (Scope.Exchanged x.Forms)) mine.1 yours.1 ∧ mine.2 = yours.2) ∧
    ∀ starts others : List (Scope × Text),
      List.Forall₂ (fun start other' => x.Starts start.1 other'.1 ∧ start.2 = other'.2)
        starts others →
      let mine := renderTurns (renderOnce env) command starts s
      let yours := renderTurns (renderOnce { env with depthLimit := limit }) other others s
      .error .tooDeep ∉ mine.1 → env.depthLimit < limit ∨ .error .tooDeep ∉ yours.1 →
      mine = yours := by
  have hs : s.Reads env.grammar (s.candidates.tree env.grammar) := fun _ => rfl
  -- what does not come to its limit is as with a limit above both
  have htop : env.depthLimit < max env.depthLimit limit + 1 ∧
      limit < max env.depthLimit limit + 1 :=
    ⟨by omega, by omega⟩
  constructor
  · intro a b ambient count hstarts mine yours hmine henough
    rcases henough with hlimit | hyours
    · exact (enumerate_exchanged hdraws hreplaced hcandidates hlimit hstarts ambient).take count hs
        hmine
    · obtain ⟨hfirst, hsame⟩ := (enumerate_exchanged hdraws hreplaced hcandidates htop.1 hstarts
        ambient).take count hs hmine
      obtain ⟨hsecond, hsame'⟩ := (enumerate_deeper x other htop.2 b ambient).take count hs hyours
      exact ⟨Together.forall₂_of_common hfirst hsecond, hsame.trans hsame'.symm⟩
  · intro starts others hstarts
    have hlimited : renderOnce { env with depthLimit := limit } = renderWithin env limit :=
      renderWithin_depthLimit env limit limit
    rw [hlimited]
    intro mine yours hmine henough
    rcases henough with hlimit | hyours
    · exact renderTurns_exchanged hdraws hreplaced hcandidates hlimit hstarts hmine
    · have hfirst := renderTurns_exchanged hdraws hreplaced hcandidates htop.1 hstarts hmine
      exact hfirst.trans (renderTurns_deeper x other htop.2 others hs hyours).symm

/-! ### A sample -/

/-- The part with the exact weight of leaving it out. -/
def Inclusion.exact (label : Label) (chance : Rat) (value : Command) (sampling : Option Sampling) :
    Inclusion where
  label := label
  chance := chance
  rest := 1 - chance
  value := value
  sampling := sampling
  rest_pos := by grind

/-- A letter that is drawn, put in by half a chance. -/
def halfChance : Inclusion :=
  .exact ⟨[0], .built 0⟩ (1 / 2)
    (.variant ⟨[1], .built 0⟩ [⟨1, .literal (units "a")⟩, ⟨1, .literal (units "b")⟩] 1 1
      Command.defaultSeparator (some .random)) none

/-- A variable that keeps a node, and two readings of it, as the one choice of a variant. -/
def readTwice (command : Command) : Command :=
  .variant ⟨[2], .built 0⟩ [⟨1, .assignment (units "x") command true false⟩,
    ⟨1, .access (units "x") none⟩, ⟨1, .literal (units "-")⟩,
    ⟨1, .access (units "x") none⟩] 4 4 [] none

/-- No wildcard has values. -/
def withoutWildcards : Environment where
  grammar := .standard
  source := fun _ => 0
  round := .exact
  policy := .automatic
  resolve := fun _ => .ok []
  depthLimit := 5

theorem readTwice_replaced (x : Inclusion) :
    (readTwice x.asProbability).Replaced Command.NeverDraws x.Forms (readTwice x.asVariant) := by
  -- reading a variable neither draws nor has parts, so it is the same on both sides
  have hleaf : ∀ {command : Command}, command.parts = [] → command.declared = none →
      Pairing.Calm (command, command) := by
    intro command hparts hdeclared
    refine ⟨rfl, .node _ (.of_declared_eq_none hdeclared) ?_⟩
    rw [hparts]
    exact List.forall_mem_nil _
  have hassigned : (Command.assignment (units "x") x.asProbability true false).Replaced
      Command.NeverDraws x.Forms (.assignment (units "x") x.asVariant true false) :=
    @Command.Replaced.inside _ _ _ _ _ _ [] [] (.of_declared_eq_none rfl)
      (.assignment (units "x") (x.asProbability, x.asVariant) true false) (List.forall_mem_nil _)
      (.here (.inl ⟨rfl, rfl⟩))
  exact @Command.Replaced.inside _ _ _ _ _ _ [] _ (.of_declared_eq_none rfl)
    (.variant ⟨[2], .built 0⟩ [⟨1, (_, _)⟩, ⟨1, (_, _)⟩, ⟨1, (_, _)⟩, ⟨1, (_, _)⟩] 4 4 [] none)
    (List.forall_mem_cons.2 ⟨hleaf rfl rfl, List.forall_mem_cons.2 ⟨hleaf rfl rfl,
      List.forall_mem_singleton.2 (hleaf rfl rfl)⟩⟩) hassigned

/-- Both forms, kept by a variable that is read twice: four texts, and the letter is drawn for each
reading that puts it in. -/
theorem forms_exchangeable_of_halfChance :
    ((enumerate withoutWildcards (readTwice halfChance.asProbability) (.root []) []).take none
      (.fresh 0)).1.map (·.text) = [units "-", units "-a", units "a-", units "a-a"] ∧
    List.Forall₂ (Together.Match (Scope.Exchanged halfChance.Forms))
      ((enumerate withoutWildcards (readTwice halfChance.asProbability) (.root []) []).take none
        (.fresh 0)).1
      ((enumerate withoutWildcards (readTwice halfChance.asVariant) (.root []) []).take none
        (.fresh 0)).1 ∧
    (renderTurns (renderOnce withoutWildcards) (readTwice halfChance.asProbability)
      [(.root [], []), (.root [], [])] (.fresh 0)).1 = [.ok (units "-a"), .ok (units "-a")] ∧
    renderTurns (renderOnce withoutWildcards) (readTwice halfChance.asProbability)
        [(.root [], []), (.root [], [])] (.fresh 0) =
      renderTurns (renderOnce withoutWildcards) (readTwice halfChance.asVariant)
        [(.root [], []), (.root [], [])] (.fresh 0) := by
  have hstarts : halfChance.Starts (.root []) (.root []) :=
    ⟨Scope.everywhere_root _, .inl (.refl _)⟩
  -- nothing is resolved here, so there is no candidate to speak of
  have hnone : ∀ name values value tree, withoutWildcards.resolve name = .ok values →
      value ∈ values → (Session.fresh 0).candidates.tree .standard value = .ok tree →
      tree.Everywhere Command.NeverDraws := by
    intro name values value tree hresolve hvalue _
    cases hresolve
    cases hvalue
  obtain ⟨hbranches, hwalks⟩ := forms_exchangeable withoutWildcards withoutWildcards.depthLimit
    (by decide) (readTwice_replaced halfChance) hnone
  have hturns : List.Forall₂ (fun start other : Scope × Text => halfChance.Starts start.1 other.1 ∧
      start.2 = other.2) [(.root [], []), (.root [], [])] [(.root [], []), (.root [], [])] :=
    .cons ⟨hstarts, rfl⟩ (.cons ⟨hstarts, rfl⟩ .nil)
  exact ⟨by decide +kernel, (hbranches _ _ [] none hstarts (by decide +kernel)
    (.inr (by decide +kernel))).1, by decide +kernel, hwalks _ _ hturns (by decide +kernel)
    (.inr (by decide +kernel))⟩

end PromptTemplate
