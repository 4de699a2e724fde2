/-
`Repeats.lean` -- leaving out repeated names.

The name of a wildcard may itself be rendered, and then the name has branches. Of those with one
text the enumeration goes on from the first only, in the scope that this one left. What is found
that way is found without the rule as well. The other way around, a branch that is left out is
missed as soon as a variable tells its scope from that of the branch that stays: the candidates
read it, and so does all that stands behind the wildcard. `Branches.checked` is the run that
leaves out nothing and fails where this can happen; where it does not fail, nothing is lost.
-/
import PromptTemplate.Proofs.Expansion.Resembling

set_option autoImplicit false

namespace PromptTemplate

/-! ## 1. Names that leave one scope for each text -/

/-- The branches have different texts, or scopes that pass for the same. -/
def Branch.consistent (alike : Scope → Scope → Bool) (first next : Branch) : Bool :=
  first.text != next.text || alike first.scope next.scope

/-- All branches of a run, and an error in place of the first one that is not consistent with
those before it. -/
def Run.checked (alike : Scope → Scope → Bool) (error : WalkError) :
    (seen : List Branch) → Run → Run
  | _, done s => done s
  | _, fail error s => fail error s
  | seen, yield branch s rest =>
    if seen.all (·.consistent alike branch) then
      yield branch s fun s => checked alike error (branch :: seen) (rest s)
    else fail error s

/-- All branches, and an error in place of the first one that is not consistent with those before
it. -/
def Branches.checked (alike : Scope → Scope → Bool) (error : WalkError) (branches : Branches) :
    Branches := fun s => (branches s).checked alike error []

namespace Listing

variable {alike : Scope → Scope → Bool} {error : WalkError} {last : Option WalkError}

/-- The branches of a listing, up to one that is not consistent with those before it. -/
def checkedFrom (alike : Scope → Scope → Bool) (error : WalkError) (last : Option WalkError) :
    (seen : List Branch) → List Branch → Listing
  | _, [] => ⟨[], last⟩
  | seen, branch :: branches =>
    if seen.all (·.consistent alike branch) then
      let rest := checkedFrom alike error last (branch :: seen) branches
      ⟨branch :: rest.branches, rest.error⟩
    else ⟨[], some error⟩

theorem mem_of_mem_checkedFrom {found : Branch} :
    ∀ {seen branches : List Branch},
      found ∈ (checkedFrom alike error last seen branches).branches → found ∈ branches
  | _, [], h => nomatch h
  | seen, branch :: branches, h => by
    rw [checkedFrom] at h
    split at h
    · rcases List.mem_cons.1 h with rfl | h
      · exact List.mem_cons_self
      · exact List.mem_cons_of_mem _ (mem_of_mem_checkedFrom h)
    · cases h

/-- A check that ends without an error has passed all branches, and any two of them are
consistent. -/
theorem checkedFrom_error_none :
    ∀ {seen branches : List Branch}, (checkedFrom alike error last seen branches).error = none →
      last = none ∧ (checkedFrom alike error last seen branches).branches = branches ∧
        (∀ branch ∈ branches, ∀ other ∈ seen, other.consistent alike branch = true) ∧
        branches.Pairwise fun first next => first.consistent alike next = true
  | _, [], h => ⟨h, rfl, fun _ hmem => (nomatch hmem), .nil⟩
  | seen, branch :: branches, h => by
    rw [checkedFrom] at h ⊢
    split at h
    · next hseen =>
      rw [if_pos hseen]
      obtain ⟨hlast, hall, hbefore, hpairs⟩ := checkedFrom_error_none h
      refine ⟨hlast, congrArg (branch :: ·) hall, fun other hmem => ?_, .cons ?_ hpairs⟩
      · rcases List.mem_cons.1 hmem with rfl | hmem
        · exact List.all_eq_true.1 hseen
        · exact fun earlier hearlier => hbefore other hmem earlier (List.mem_cons_of_mem _ hearlier)
      · exact fun other hmem => hbefore other hmem branch List.mem_cons_self
    · cases h

/-- Branches with one text leave scopes that no lookup tells apart. -/
def Unambiguous (branches : List Branch) : Prop :=
  ∀ branch ∈ branches, ∀ other ∈ branches, branch.text = other.text → branch.Alike other

/-- What a check has passed is unambiguous, if it takes for the same only what is. -/
theorem unambiguous_of_checkedFrom (halike : ∀ a b, alike a b = true → a.Agrees b)
    {branches : List Branch} (h : (checkedFrom alike error last [] branches).error = none) :
    Unambiguous branches := by
  obtain ⟨-, -, -, hpairs⟩ := checkedFrom_error_none h
  have hsame : branches.Pairwise fun first next => first.text = next.text → first.Alike next := by
    refine hpairs.imp fun {first next} hconsistent htext => ⟨htext, ?_⟩
    simp only [Branch.consistent, htext, bne_self_eq_false, Bool.false_or] at hconsistent
    exact halike _ _ hconsistent
  have hswapped : branches.Pairwise (flip fun first next => first.text = next.text →
      first.Alike next) := hsame.imp fun h htext => (h htext.symm).symm
  exact List.Pairwise.forall_of_forall_of_flip (fun branch _ _ => .refl branch) hsame hswapped

namespace Resembles

variable {p : Command → Prop} {whole : Prop} {mine yours : Listing}

/-- Leaving out repeated texts on one side. It finds nothing else, and if no two branches with
one text differ, then each one that is left out is alike to the one that stays. -/
theorem distinct (h : mine.Resembles p whole yours)
    (hsame : whole → mine.error = none → Unambiguous mine.branches) :
    mine.Resembles p whole ⟨distinctFrom [] yours.branches, yours.error⟩ where
  settled := h.settled
  settled' branch hmem := h.settled' branch (mem_of_mem_distinctFrom hmem)
  error := h.error
  found herror branch hmem := h.found herror branch (mem_of_mem_distinctFrom hmem)
  kept hwhole herror branch hmem := by
    obtain ⟨other, hother, halike⟩ := h.kept hwhole herror branch hmem
    obtain ⟨stays, hstays, htext⟩ := (exists_mem_distinctFrom [] hother).resolve_left nofun
    -- the one that stays is a branch of the other side as well, and has the text of `branch`
    obtain ⟨first, hfirst, halike'⟩ := h.found herror stays (mem_of_mem_distinctFrom hstays)
    have hsame' := hsame hwhole herror branch hmem first hfirst
      (halike.text.trans (htext.symm.trans halike'.text.symm))
    exact ⟨stays, hstays, hsame'.trans halike'⟩

/-- Checking the other side: where it fails nothing is asked, and elsewhere it changes nothing. -/
theorem checked (h : mine.Resembles p whole yours) (alike : Scope → Scope → Bool)
    (error : WalkError) :
    (checkedFrom alike error mine.error [] mine.branches).Resembles p whole yours := by
  -- a check that passed changed nothing, so what is known of the listing is known of its result
  have hpassed : (checkedFrom alike error mine.error [] mine.branches).error = none →
      mine.error = none ∧
        (checkedFrom alike error mine.error [] mine.branches).branches = mine.branches :=
    fun hnone => ⟨(checkedFrom_error_none hnone).1, (checkedFrom_error_none hnone).2.1⟩
  constructor
  · exact fun branch hmem => h.settled branch (mem_of_mem_checkedFrom hmem)
  · exact h.settled'
  · exact fun hnone => h.error (hpassed hnone).1
  · intro hnone
    rw [(hpassed hnone).2]
    exact h.found (hpassed hnone).1
  · intro hwhole hnone
    rw [(hpassed hnone).2]
    exact h.kept hwhole (hpassed hnone).1

end Resembles

end Listing

theorem Run.Denotes.checked {known : Session → Prop} {run : Run} {listing : Listing}
    (h : run.Denotes known listing) (alike : Scope → Scope → Bool) (error : WalkError) :
    ∀ seen : List Branch, (run.checked alike error seen).Denotes known
      (Listing.checkedFrom alike error listing.error seen listing.branches) := by
  induction h with
  | done s keeps => exact fun _ => .done s keeps
  | fail last s => exact fun _ => .fail last s
  | yield branch s rest listing keeps _ ih =>
    intro seen
    rw [Run.checked, Listing.checkedFrom]
    split
    · exact .yield branch s _ _ keeps fun s hs => ih s hs (branch :: seen)
    · exact .fail error s

namespace Branches.Resemble

variable {known : Session → Prop} {p : Command → Prop} {whole : Prop} {mine yours : Branches}

/-- Leaving out repeated texts finds nothing new. -/
theorem distinct (h : Resemble known p False mine yours) :
    Resemble known p False mine yours.distinct := by
  obtain ⟨first, second, hfirst, hsecond, hresembles⟩ := h
  exact ⟨first, _, hfirst, hsecond.distinct, hresembles.distinct False.elim⟩

theorem checked (h : Resemble known p whole mine yours) (alike : Scope → Scope → Bool)
    (error : WalkError) : Resemble known p whole (mine.checked alike error) yours := by
  obtain ⟨first, second, hfirst, hsecond, hresembles⟩ := h
  exact ⟨_, second, fun s hs => (hfirst s hs).checked alike error [], hsecond,
    hresembles.checked alike error⟩

/-- Leaving out repeated texts loses nothing where the check passes. -/
theorem checked_distinct (h : Resemble known p whole mine yours) {alike : Scope → Scope → Bool}
    (halike : ∀ a b, alike a b = true → a.Agrees b) (error : WalkError) :
    Resemble known p whole (mine.checked alike error) yours.distinct := by
  obtain ⟨first, second, hfirst, hsecond, hresembles⟩ := h
  refine ⟨_, _, fun s hs => (hfirst s hs).checked alike error [], hsecond.distinct,
    (hresembles.checked alike error).distinct fun _ hnone => ?_⟩
  rw [(Listing.checkedFrom_error_none hnone).2.1]
  exact Listing.unambiguous_of_checkedFrom halike hnone

/-- Once the first can all be taken, so can the second, and its texts are among those of the
first; where the whole is to be found, the other way around, too. -/
theorem texts_subset (h : Resemble known p whole mine yours) {s : Session} (hs : known s)
    {all : List Branch} {after : Session} (hall : mine.take none s = (all, .exhausted, after)) :
    ∃ (found : List Branch) (last : Session), yours.take none s = (found, .exhausted, last) ∧
      found.map (·.text) ⊆ all.map (·.text) ∧
      (whole → all.map (·.text) ⊆ found.map (·.text)) := by
  obtain ⟨first, second, hfirst, hsecond, hresembles⟩ := h
  obtain ⟨rfl, hnone⟩ := hfirst.of_take_none hs hall
  obtain ⟨last, htake⟩ := (hsecond s hs).take_none
  rw [Listing.ending_eq_exhausted.2 (hresembles.error hnone)] at htake
  refine ⟨second.branches, last, htake, fun text hmem => ?_, fun hwhole text hmem => ?_⟩
  · obtain ⟨branch, hbranch, rfl⟩ := List.mem_map.1 hmem
    obtain ⟨other, hother, halike⟩ := hresembles.found hnone branch hbranch
    exact List.mem_map.2 ⟨other, hother, halike.text⟩
  · obtain ⟨branch, hbranch, rfl⟩ := List.mem_map.1 hmem
    obtain ⟨other, hother, halike⟩ := hresembles.kept hwhole hnone branch hbranch
    exact List.mem_map.2 ⟨other, hother, halike.text.symm⟩

end Branches.Resemble

/-! ## 2. Trees -/

/-- The node forces neither drawing nor rotating. -/
def Command.Exhaustive (command : Command) : Prop :=
  command.declared = none ∨ command.declared = some .combinatorial

/-- Enumerations with two ways of treating the names of wildcards resemble each other at any
depth, if resembling names still do so after it. -/
theorem Enumerator.Resemble.within {env : Environment} {tree : Text → Except WalkError Command}
    {whole : Prop} {keptMine keptYours : Branches → Branches}
    (hknown : ∃ s, Session.Reads env.grammar tree s)
    (hcandidates : ∀ name found, wildcardTrees env tree name .combinatorial = .ok found →
      ∀ candidate ∈ found, candidate.Everywhere Command.Exhaustive)
    (hkept : ∀ {first second : Branches},
      Branches.Resemble (Session.Reads env.grammar tree) Command.Exhaustive whole first second →
      Branches.Resemble (Session.Reads env.grammar tree) Command.Exhaustive whole (keptMine first)
        (keptYours second)) (depth : Nat) :
    Enumerator.Resemble (Session.Reads env.grammar tree) Command.Exhaustive whole
      (enumerateWithin env keptMine depth) (enumerateWithin env keptYours depth) := by
  induction depth with
  | zero => exact fun _ _ _ _ _ _ _ => .fail .tooDeep
  | succ depth ih => exact ih.node hknown (fun _ hcommand => hcommand) hcandidates hkept

/-- **Leaving out repeated names.** Take a tree in which nothing forces drawing or rotating, and
variables and wildcard values that bring in no such node either, and enumerate it without leaving
out any branch of a name. If that comes to an end without an error, so does the enumeration that
leaves out names whose text came before, and all its texts are among the others. It has all of
them as long as the branches of a name with one text leave scopes that no lookup tells apart: for
every test of scopes that only passes what no lookup tells apart, if checking the names with it
runs into no error, the texts are the same. -/
theorem enumerate_texts_of_repeated_names (env : Environment) {command : Command} {scope : Scope}
    (ambient : Text) {s : Session} (hcommand : command.Everywhere Command.Exhaustive)
    (hscope : scope.Everywhere Command.Exhaustive)
    (hcandidates : ∀ name values value tree, env.resolve name = .ok values → value ∈ values →
      s.candidates.tree env.grammar value = .ok tree → tree.Everywhere Command.Exhaustive)
    {all : List Branch} {after : Session}
    (hall : (enumerateWithin env id env.depthLimit command scope ambient).take none s =
      (all, .exhausted, after)) :
    ∃ (found : List Branch) (last : Session),
      (enumerate env command scope ambient).take none s = (found, .exhausted, last) ∧
      found.map (·.text) ⊆ all.map (·.text) ∧
      ∀ (alike : Scope → Scope → Bool) (error : WalkError) (checked : List Branch)
        (final : Session), (∀ a b, alike a b = true → a.Agrees b) →
        (enumerateWithin env (.checked alike error) env.depthLimit command scope ambient).take none
          s = (checked, .exhausted, final) →
        ∀ text, text ∈ found.map (·.text) ↔ text ∈ all.map (·.text) := by
  have htrees := everywhere_of_wildcardTrees hcandidates
  have hreads : s.Reads env.grammar (s.candidates.tree env.grammar) := fun value => rfl
  have hfewer : Enumerator.Resemble (Session.Reads env.grammar (s.candidates.tree env.grammar))
      Command.Exhaustive False (enumerateWithin env id env.depthLimit) (enumerate env) :=
    .within ⟨s, hreads⟩ htrees (fun h => h.distinct) env.depthLimit
  obtain ⟨found, last, hfound, hsubset, -⟩ :=
    (hfewer command hcommand (.refl scope) hscope ambient).texts_subset hreads hall
  refine ⟨found, last, hfound, hsubset, fun alike error checked final halike hchecked text =>
    ⟨fun hmem => hsubset hmem, fun hmem => ?_⟩⟩
  -- every text is among those that are checked, and these are among those that are found
  have hpassed : Enumerator.Resemble (Session.Reads env.grammar (s.candidates.tree env.grammar))
      Command.Exhaustive False (enumerateWithin env (.checked alike error) env.depthLimit)
      (enumerateWithin env id env.depthLimit) :=
    .within ⟨s, hreads⟩ htrees (fun h => h.checked alike error) env.depthLimit
  have hkept : Enumerator.Resemble (Session.Reads env.grammar (s.candidates.tree env.grammar))
      Command.Exhaustive True (enumerateWithin env (.checked alike error) env.depthLimit)
      (enumerate env) :=
    .within ⟨s, hreads⟩ htrees (fun h => h.checked_distinct halike error) env.depthLimit
  obtain ⟨_, _, hall', hchecked', -⟩ :=
    (hpassed command hcommand (.refl scope) hscope ambient).texts_subset hreads hchecked
  obtain ⟨_, _, hfound', -, hkept'⟩ :=
    (hkept command hcommand (.refl scope) hscope ambient).texts_subset hreads hchecked
  cases hall.symm.trans hall'
  cases hfound.symm.trans hfound'
  exact hkept' trivial (hchecked' hmem)

/-! ### Samples -/

/-- Commands one after another, as the one choice of all options. -/
def together (label : Label) (commands : List Command) : Command :=
  .variant label (commands.map fun command => ⟨1, command⟩) commands.length commands.length [] none

/-- A variable is read behind a wildcard that binds it in its name: each option binds it to its
first text, and renders to the second. -/
def bindingNameSample (options : List (Text × Text)) : Command :=
  together ⟨[0], .built 0⟩
    [.wildcard ⟨[1], .built 0⟩
        (.rendered (.variant ⟨[2], .built 0⟩
          (options.map fun option => ⟨1, together ⟨[3], .built 0⟩
            [.assignment (units "x") (.literal option.1) true true, .literal option.2]⟩)
          1 1 (units ",") none)) [] none,
      .access (units "x") none]

/-- Two wildcards have one value each. -/
def bindingNameEnvironment : Environment where
  grammar := .standard
  source := fun _ => 0
  round := .exact
  policy := .automatic
  resolve := fun name =>
    .ok (if name = units "a" then [units "cat"] else if name = units "b" then [units "dog"] else [])
  depthLimit := 7

/-- The values of both wildcards are texts. -/
def bindingNameSession : Session :=
  { Session.fresh 0 with
    candidates :=
      ⟨0, [(units "cat", .literal (units "cat")), (units "dog", .literal (units "dog"))]⟩ }

theorem together_exhaustive (label : Label) {commands : List Command}
    (h : ∀ command ∈ commands, command.Everywhere Command.Exhaustive) :
    (together label commands).Everywhere Command.Exhaustive := by
  refine .node _ (.inl rfl) fun part hmem => ?_
  simp only [together, Command.parts, List.map_map, Function.comp_def, List.map_id'] at hmem
  exact h part hmem

theorem bindingNameSample_exhaustive (options : List (Text × Text)) :
    (bindingNameSample options).Everywhere Command.Exhaustive := by
  have hleaf : ∀ {command : Command}, command.parts = [] → command.Exhaustive →
      command.Everywhere Command.Exhaustive := by
    intro command hparts hhere
    exact .node _ hhere (by rw [hparts]; exact nofun)
  have hname : (Command.variant ⟨[2], .built 0⟩
      (options.map fun option => ⟨1, together ⟨[3], .built 0⟩
        [.assignment (units "x") (.literal option.1) true true, .literal option.2]⟩)
      1 1 (units ",") none).Everywhere Command.Exhaustive := by
    refine .node _ (.inl rfl) fun part hmem => ?_
    simp only [Command.parts, List.map_map, List.mem_map, Function.comp_apply] at hmem
    obtain ⟨option, -, rfl⟩ := hmem
    refine together_exhaustive _ (List.forall_mem_cons.2 ⟨?_, List.forall_mem_singleton.2 ?_⟩)
    · exact .node _ (.inl rfl) (List.forall_mem_singleton.2 (hleaf rfl (.inl rfl)))
    · exact hleaf rfl (.inl rfl)
  refine together_exhaustive _ (List.forall_mem_cons.2 ⟨?_, List.forall_mem_singleton.2 ?_⟩)
  · exact .node _ (.inl rfl) (List.forall_mem_singleton.2 hname)
  · exact hleaf rfl (.inl rfl)

/-- The same names, with the same finished texts. -/
def sameTexts : Frame → Frame → Bool
  | [], [] => true
  | (name, some (.evaluated text)) :: entries, (other, some (.evaluated text')) :: entries' =>
    name == other && text == text' && sameTexts entries entries'
  | _, _ => false

theorem eq_of_sameTexts {a b : Frame} (h : sameTexts a b = true) : a = b := by
  fun_induction sameTexts a b with
  | case1 => rfl
  | case2 name text entries other text' entries' ih =>
    simp only [Bool.and_eq_true, beq_iff_eq] at h
    rw [h.1.1, h.1.2, ih h.2]
  | case3 => cases h

/-- Scopes with nothing around them, and the same texts. -/
def Scope.sameTexts (a b : Scope) : Bool :=
  PromptTemplate.sameTexts a.own b.own && a.parents.isEmpty && b.parents.isEmpty

theorem Scope.agrees_of_sameTexts (a b : Scope) (h : a.sameTexts b = true) : a.Agrees b := by
  obtain ⟨own, parents⟩ := a
  obtain ⟨own', parents'⟩ := b
  simp only [Scope.sameTexts, Bool.and_eq_true, List.isEmpty_iff] at h
  obtain ⟨⟨hown, rfl⟩, rfl⟩ := h
  cases eq_of_sameTexts hown
  exact .refl _

/-- Every tree of a value is a text. -/
theorem bindingNameSession_exhaustive {name : Text} {values : List Text} {value : Text}
    {tree : Command} (hresolve : bindingNameEnvironment.resolve name = .ok values)
    (hvalue : value ∈ values)
    (htree : bindingNameSession.candidates.tree .standard value = .ok tree) :
    tree.Everywhere Command.Exhaustive := by
  have hknown : value = units "cat" ∨ value = units "dog" := by
    cases hresolve
    split at hvalue
    · exact .inl (List.mem_singleton.1 hvalue)
    · split at hvalue
      · exact .inr (List.mem_singleton.1 hvalue)
      · cases hvalue
  rcases hknown with rfl | rfl <;> cases htree <;> exact .node _ (.inl rfl) nofun

/-- Branches that were all taken, put as an equation. -/
theorem eq_of_exhausted {taken : List Branch × Ending × Session} (h : taken.2.1 = .exhausted) :
    taken = (taken.1, .exhausted, taken.2.2) := by
  rw [← h]

/-- Of three options two are the same, and leaving one of them out loses nothing. -/
theorem enumerate_texts_of_repeated_names_of_sample :
    ∃ (all found : List Branch) (after last : Session),
      (enumerateWithin bindingNameEnvironment id bindingNameEnvironment.depthLimit
        (bindingNameSample [(units "1", units "a"), (units "1", units "a"), (units "2", units "b")])
        (.root []) []).take none bindingNameSession = (all, .exhausted, after) ∧
      (enumerate bindingNameEnvironment
        (bindingNameSample [(units "1", units "a"), (units "1", units "a"), (units "2", units "b")])
        (.root []) []).take none bindingNameSession = (found, .exhausted, last) ∧
      all.map (·.text) = [units "cat1", units "cat1", units "dog2"] ∧
      ∀ text, text ∈ found.map (·.text) ↔ text ∈ all.map (·.text) := by
  -- the same enumeration twice: with all repetitions, and with a check
  -- that they leave alike scopes
  have hall : ((enumerateWithin bindingNameEnvironment id bindingNameEnvironment.depthLimit
      (bindingNameSample
        [(units "1", units "a"), (units "1", units "a"), (units "2", units "b")])
      (.root []) []).take none bindingNameSession).2.1 = .exhausted := by decide +kernel
  have hchecked : ((enumerateWithin bindingNameEnvironment (.checked Scope.sameTexts .tooDeep)
      bindingNameEnvironment.depthLimit
      (bindingNameSample
        [(units "1", units "a"), (units "1", units "a"), (units "2", units "b")])
      (.root []) []).take none bindingNameSession).2.1 = .exhausted := by decide +kernel
  obtain ⟨found, last, hfound, -, hsame⟩ :=
    enumerate_texts_of_repeated_names bindingNameEnvironment [] (bindingNameSample_exhaustive _)
      (Scope.everywhere_root _) (fun _ _ _ _ => bindingNameSession_exhaustive)
      (eq_of_exhausted hall)
  exact ⟨_, found, _, last, eq_of_exhausted hall, hfound, by decide +kernel,
    hsame Scope.sameTexts .tooDeep _ _ Scope.agrees_of_sameTexts (eq_of_exhausted hchecked)⟩

/-- Without the check the texts need not be the same: two options render to one name, and the
variable behind the wildcard tells them apart, so the second of its two values is lost. -/
theorem repeated_names_lose_texts :
    ¬∀ (env : Environment) (command : Command) (scope : Scope) (ambient : Text) (s : Session)
      (all found : List Branch) (after last : Session),
      command.Everywhere Command.Exhaustive → scope.Everywhere Command.Exhaustive →
      (∀ name values value tree, env.resolve name = .ok values → value ∈ values →
        s.candidates.tree env.grammar value = .ok tree → tree.Everywhere Command.Exhaustive) →
      (enumerateWithin env id env.depthLimit command scope ambient).take none s =
        (all, .exhausted, after) →
      (enumerate env command scope ambient).take none s = (found, .exhausted, last) →
      ∀ text, text ∈ found.map (·.text) ↔ text ∈ all.map (·.text) := by
  intro h
  have hsame := h bindingNameEnvironment
    (bindingNameSample [(units "1", units "a"), (units "2", units "a")]) (.root []) []
    bindingNameSession _ _ _ _ (bindingNameSample_exhaustive _) (Scope.everywhere_root _)
    (fun _ _ _ _ => bindingNameSession_exhaustive) rfl rfl (units "cat2")
  have hlost : units "cat2" ∉ [units "cat1"] := by decide
  exact hlost (hsame.2 (List.mem_cons_of_mem (units "cat1") (List.mem_singleton_self _)))

end PromptTemplate
