/-
`Resembling.lean` -- two enumerations, compared by the branches that they find.

What one enumeration leaves out must be found elsewhere in it, if nothing is to be lost, and
there the scopes need not be the same, as long as no lookup tells them apart. So two enumerations
are compared by what their branches are, and not by their order or number: `Branches.Resemble`
says that if the first ends without an error then so does the second, and that every branch of
the second is alike to one of the first; and where they are to find the same (`whole`), every
branch of the first to one of the second. The relation is kept by the ways of putting branches
together, and with them by the rules of all nodes (`Enumerator.Resemble.node`).
-/
import PromptTemplate.Proofs.Expansion.Choosing

set_option autoImplicit false

namespace PromptTemplate

/-! ## 1. Branches that are alike -/

namespace Scope

namespace Agrees

variable {a b c : Scope}

/-- Agreeing goes both ways. -/
theorem symm (h : a.Agrees b) : b.Agrees a := fun name => (h name).symm

/-- Agreeing goes on. -/
theorem trans (h : a.Agrees b) (h' : b.Agrees c) : a.Agrees c :=
  fun name => (h name).trans (h' name)

/-- What is in reach is decided by lookups. -/
theorem everywhere (h : a.Agrees b) {p : Command → Prop} (ha : a.Everywhere p) : b.Everywhere p :=
  fun name binding hlookup => ha name binding ((h name).trans hlookup)

/-- A name is bound in one scope if it is in the other. -/
theorem has_eq (h : a.Agrees b) (name : Text) : a.has name = b.has name := by
  rw [has, has, h name]

end Agrees

end Scope

/-- The same text, and scopes that no lookup tells apart. -/
structure Branch.Alike (mine yours : Branch) : Prop where
  text : mine.text = yours.text
  scope : mine.scope.Agrees yours.scope

namespace Branch.Alike

/-- A branch is like itself. -/
theorem refl (branch : Branch) : branch.Alike branch := ⟨rfl, .refl branch.scope⟩

/-- Being alike goes both ways. -/
theorem symm {mine yours : Branch} (h : mine.Alike yours) : yours.Alike mine :=
  ⟨h.text.symm, h.scope.symm⟩

/-- Being alike goes on. -/
theorem trans {first next last : Branch} (h : first.Alike next) (h' : next.Alike last) :
    first.Alike last :=
  ⟨h.text.trans h'.text, h.scope.trans h'.scope⟩

end Branch.Alike

/-! ## 2. Listings -/

namespace Listing

/-- Behind a listing without an error come the branches of the next one. -/
theorem append_of_error_none {first : Listing} (h : first.error = none) (next : Listing) :
    first.append next = ⟨first.branches ++ next.branches, next.error⟩ := by
  rw [append, h]

/-- Going on from every branch fails nowhere if no part does. -/
theorem bindAll_ok {f : Branch → Listing} :
    ∀ {branches : List Branch}, (∀ branch ∈ branches, (f branch).error = none) →
      (bindAll f none branches).error = none
  | [], _ => rfl
  | branch :: branches, h => by
    rw [bindAll, append_of_error_none (h branch List.mem_cons_self)]
    exact bindAll_ok fun other hmem => h other (List.mem_cons_of_mem _ hmem)

/-- How the second listing has to look if the first has no error: it has none either, its branches
are branches of the first, and the other way around where the whole is to be found. The scopes
that are left have the property in either listing. -/
structure Resembles (p : Command → Prop) (whole : Prop) (mine yours : Listing) : Prop where
  settled : ∀ branch ∈ mine.branches, branch.scope.Everywhere p
  settled' : ∀ branch ∈ yours.branches, branch.scope.Everywhere p
  error : mine.error = none → yours.error = none
  found : mine.error = none → ∀ branch ∈ yours.branches, ∃ other ∈ mine.branches, other.Alike branch
  kept : whole → mine.error = none →
    ∀ branch ∈ mine.branches, ∃ other ∈ yours.branches, branch.Alike other

namespace Resembles

variable {p : Command → Prop} {whole : Prop} {mine yours next following : Listing}

/-- Where nothing but an error is found, nothing is asked. -/
theorem failed (error : WalkError) : Resembles p whole ⟨[], some error⟩ ⟨[], some error⟩ where
  settled := List.forall_mem_nil _
  settled' := List.forall_mem_nil _
  error herror := by cases herror
  found herror := by cases herror
  kept _ herror := by cases herror

/-- Listings one behind the other resemble each other if both do. -/
theorem append (h : mine.Resembles p whole yours) (hnext : next.Resembles p whole following) :
    (mine.append next).Resembles p whole (yours.append following) where
  settled branch hmem := (mem_append hmem).elim (h.settled branch) (hnext.settled branch)
  settled' branch hmem := (mem_append hmem).elim (h.settled' branch) (hnext.settled' branch)
  error herror := by
    obtain ⟨hmine, hafter, -⟩ := append_error_none herror
    rw [append_of_error_none (h.error hmine)]
    exact hnext.error hafter
  found herror branch hmem := by
    obtain ⟨hmine, hafter, hall⟩ := append_error_none herror
    rw [hall]
    rcases mem_append hmem with hmem | hmem
    · obtain ⟨other, hother, halike⟩ := h.found hmine branch hmem
      exact ⟨other, List.mem_append_left _ hother, halike⟩
    · obtain ⟨other, hother, halike⟩ := hnext.found hafter branch hmem
      exact ⟨other, List.mem_append_right _ hother, halike⟩
  kept hwhole herror branch hmem := by
    obtain ⟨hmine, hafter, hall⟩ := append_error_none herror
    rw [append_of_error_none (h.error hmine)]
    rw [hall] at hmem
    rcases List.mem_append.1 hmem with hmem | hmem
    · obtain ⟨other, hother, halike⟩ := h.kept hwhole hmine branch hmem
      exact ⟨other, List.mem_append_left _ hother, halike⟩
    · obtain ⟨other, hother, halike⟩ := hnext.kept hwhole hafter branch hmem
      exact ⟨other, List.mem_append_right _ hother, halike⟩

/-- Listings that are alike go on as listings that are, if branches that are alike do. -/
theorem bind (h : mine.Resembles p whole yours) {f g : Branch → Listing}
    (hparts : ∀ branch ∈ mine.branches, ∀ other ∈ yours.branches, branch.Alike other →
      (f branch).Resembles p whole (g other))
    (hsettled : ∀ branch ∈ mine.branches, ∀ found ∈ (f branch).branches, found.scope.Everywhere p)
    (hsettled' : ∀ branch ∈ yours.branches, ∀ found ∈ (g branch).branches,
      found.scope.Everywhere p) :
    (mine.bind f).Resembles p whole (yours.bind g) := by
  -- every branch of the second listing has its like in the first, whose part did not fail
  have hfine : (mine.bind f).error = none → (yours.bind g).error = none := by
    intro herror
    obtain ⟨hmine, hall⟩ := bindAll_error_none herror
    rw [Listing.bind, h.error hmine]
    refine bindAll_ok fun branch hmem => ?_
    obtain ⟨other, hother, halike⟩ := h.found hmine branch hmem
    exact (hparts other hother branch hmem halike).error (hall other hother).1
  refine ⟨fun found hmem => ?_, fun found hmem => ?_, hfine, fun herror found hmem => ?_,
    fun hwhole herror found hmem => ?_⟩
  · obtain ⟨branch, hbranch, hin⟩ := mem_bindAll hmem
    exact hsettled branch hbranch found hin
  · obtain ⟨branch, hbranch, hin⟩ := mem_bindAll hmem
    exact hsettled' branch hbranch found hin
  -- a branch of the result comes from a branch of the second listing, so
  -- its like is looked up first
  · obtain ⟨hmine, hall⟩ := bindAll_error_none herror
    obtain ⟨branch, hbranch, hin⟩ := mem_bindAll hmem
    obtain ⟨other, hother, halike⟩ := h.found hmine branch hbranch
    obtain ⟨hnone, hkept⟩ := hall other hother
    obtain ⟨last, hlast, halike'⟩ :=
      (hparts other hother branch hbranch halike).found hnone found hin
    exact ⟨last, hkept last hlast, halike'⟩
  · obtain ⟨hmine, hall⟩ := bindAll_error_none herror
    obtain ⟨-, hall'⟩ := bindAll_error_none (hfine herror)
    obtain ⟨branch, hbranch, hin⟩ := mem_bindAll hmem
    obtain ⟨other, hother, halike⟩ := h.kept hwhole hmine branch hbranch
    obtain ⟨last, hlast, halike'⟩ :=
      (hparts branch hbranch other hother halike).kept hwhole (hall branch hbranch).1 found hin
    exact ⟨last, (hall' other hother).2 last hlast, halike'⟩

end Resembles

end Listing

/-! ## 3. Branches -/

/-- A run denotes one listing only. -/
theorem Branches.Denotes.unique {known : Session → Prop} {s : Session} (hs : known s)
    {branches : Branches} {listing other : Listing} (h : branches.Denotes known listing)
    (h' : branches.Denotes known other) : listing = other := by
  obtain ⟨last, htake⟩ := (h s hs).take_none
  obtain ⟨last', htake'⟩ := (h' s hs).take_none
  have hsame : (listing.branches, listing.ending, last) = (other.branches, other.ending, last') :=
    htake.symm.trans htake'
  obtain ⟨branches, error⟩ := listing
  obtain ⟨branches', error'⟩ := other
  have hbranches : branches = branches' := congrArg (·.1) hsame
  have hending : Listing.ending ⟨branches, error⟩ = Listing.ending ⟨branches', error'⟩ :=
    congrArg (·.2.1) hsame
  cases error <;> cases error' <;> simp_all [Listing.ending]

/-- Both have listings, whatever the session, and the second resembles the first. -/
def Branches.Resemble (known : Session → Prop) (p : Command → Prop) (whole : Prop)
    (mine yours : Branches) : Prop :=
  ∃ first second, mine.Denotes known first ∧ yours.Denotes known second ∧
    first.Resembles p whole second

namespace Branches.Resemble

variable {known : Session → Prop} {p : Command → Prop} {whole : Prop} {mine yours : Branches}

/-- One branch resembles one that is like it. -/
theorem single {branch other : Branch} (h : branch.Alike other)
    (hscope : branch.scope.Everywhere p) :
    Resemble known p whole (.single branch) (.single other) := by
  refine ⟨_, _, .single branch, .single other, ?_⟩
  constructor
  · exact List.forall_mem_singleton.2 hscope
  · exact List.forall_mem_singleton.2 (h.scope.everywhere hscope)
  · exact fun _ => rfl
  · exact fun _ => List.forall_mem_singleton.2 ⟨branch, List.mem_singleton_self _, h⟩
  · exact fun _ _ => List.forall_mem_singleton.2 ⟨other, List.mem_singleton_self _, h⟩

/-- An error resembles itself. -/
theorem fail (error : WalkError) : Resemble known p whole (.fail error) (.fail error) :=
  ⟨_, _, .fail error, .fail error, .failed error⟩

/-- Branches one behind the other. -/
theorem append (h : Resemble known p whole mine yours) {next following : Branches}
    (hnext : Resemble known p whole next following) :
    Resemble known p whole (mine.append next) (yours.append following) := by
  obtain ⟨first, second, hfirst, hsecond, hresembles⟩ := h
  obtain ⟨third, fourth, hthird, hfourth, hresembles'⟩ := hnext
  exact ⟨_, _, fun s hs => (hfirst s hs).append hthird, fun s hs => (hsecond s hs).append hfourth,
    hresembles.append hresembles'⟩

/-- Members one after another, by induction on their list. -/
theorem forEach {α : Type} {f g : α → Branches} {members : List α}
    (h : ∀ a ∈ members, Resemble known p whole (f a) (g a)) :
    Resemble known p whole (Branches.forEach f members) (Branches.forEach g members) := by
  induction members with
  | nil =>
    exact ⟨⟨[], none⟩, ⟨[], none⟩, fun s hs => .done s hs, fun s hs => .done s hs, nofun, nofun,
      fun _ => rfl, fun _ => nofun, fun _ _ => nofun⟩
  | cons a rest ih =>
    exact (h a List.mem_cons_self).append
      (ih fun other hmem => h other (List.mem_cons_of_mem _ hmem))

/-- Branches that are alike lead to branches that resemble each other. A branch leads to one
listing only, which makes the listings of the parts the same from whichever side they are seen. -/
theorem bind (hknown : ∃ s, known s) (h : Resemble known p whole mine yours)
    {f g : Branch → Branches}
    (hparts : ∀ branch other : Branch, branch.Alike other → branch.scope.Everywhere p →
      Resemble known p whole (f branch) (g other)) :
    Resemble known p whole (mine.bind f) (yours.bind g) := by
  obtain ⟨s, hs⟩ := hknown
  obtain ⟨first, second, hfirst, hsecond, hresembles⟩ := h
  -- parts are given branch by branch; a choice of one listing for each makes them a function
  obtain ⟨part, hpart⟩ := Listing.exists_parts fun branch hmem =>
    hparts branch branch (.refl branch) (hresembles.settled branch hmem)
  have hyours : ∀ branch ∈ second.branches, ∃ listing other, (f branch).Denotes known other ∧
      (g branch).Denotes known listing ∧ other.Resembles p whole listing := by
    intro branch hmem
    obtain ⟨other, listing, hother, hlisting, hresembles'⟩ :=
      hparts branch branch (.refl branch) (hresembles.settled' branch hmem)
    exact ⟨listing, other, hother, hlisting, hresembles'⟩
  obtain ⟨part', hpart'⟩ := Listing.exists_parts hyours
  refine ⟨first.bind part, second.bind part',
    hfirst.bind fun branch hmem => (hpart branch hmem).choose_spec.1,
    hsecond.bind fun branch hmem => (hpart' branch hmem).choose_spec.2.1,
    hresembles.bind (fun branch hmem other hother halike => ?_) (fun branch hmem => ?_)
      fun branch hmem => ?_⟩
  · obtain ⟨third, fourth, hthird, hfourth, hresembles'⟩ :=
      hparts branch other halike (hresembles.settled branch hmem)
    -- two listings of one enumeration are the same, as there is a session to run it in
    have hmine := hthird.unique hs (hpart branch hmem).choose_spec.1
    have hyours := hfourth.unique hs (hpart' other hother).choose_spec.2.1
    rwa [← hmine, ← hyours]
  · obtain ⟨_, -, -, hresembles'⟩ := hpart branch hmem
    exact hresembles'.settled
  · obtain ⟨_, -, -, hresembles'⟩ := hpart' branch hmem
    exact hresembles'.settled'

/-- Each branch changed into branches that are alike. -/
theorem map (hknown : ∃ s, known s) (h : Resemble known p whole mine yours) {f g : Branch → Branch}
    (hparts : ∀ branch other : Branch, branch.Alike other → branch.scope.Everywhere p →
      (f branch).Alike (g other) ∧ (f branch).scope.Everywhere p) :
    Resemble known p whole (mine.map f) (yours.map g) := by
  rw [← bind_single f, ← bind_single g]
  exact h.bind hknown fun branch other halike hscope =>
    single (hparts branch other halike hscope).1 (hparts branch other halike hscope).2

/-- Both go through the same action of the session, whose result no session decides. -/
theorem ofSession {α : Type} {action : Session → Except WalkError α × Session}
    {result : Except WalkError α}
    (haction : ∀ s, known s → (action s).1 = result ∧ known (action s).2)
    {f g : α → Branches} (hnext : ∀ a, result = .ok a → Resemble known p whole (f a) (g a)) :
    Resemble known p whole (Branches.ofSession action f) (Branches.ofSession action g) := by
  cases result with
  | error error =>
    have hdenotes : ∀ f : α → Branches,
        (Branches.ofSession action f).Denotes known ⟨[], some error⟩ := fun f =>
      .ofSession_error fun s hs => (haction s hs).1
    exact ⟨_, _, hdenotes f, hdenotes g, .failed error⟩
  | ok a =>
    obtain ⟨first, second, hfirst, hsecond, hresembles⟩ := hnext a rfl
    exact ⟨first, second, hfirst.ofSession_ok haction, hsecond.ofSession_ok haction, hresembles⟩

/-- A node that is not forced has all its branches enumerated. -/
theorem byMethod (h : Resemble known p whole mine yours) {sampling : Option Sampling}
    (hsampling : sampling = none ∨ sampling = some .combinatorial) {render : Renderer}
    {command : Command} {a b : Scope} {ambient : Text} :
    Resemble known p whole (PromptTemplate.byMethod render command sampling a ambient mine)
      (PromptTemplate.byMethod render command sampling b ambient yours) := by
  rcases hsampling with rfl | rfl
  · exact h
  · exact h

end Branches.Resemble

/-! ## 4. Nodes -/

/-- In scopes that no lookup tells apart, the branches of a command by one enumerator resemble
those by another. -/
def Enumerator.Resemble (known : Session → Prop) (p : Command → Prop) (whole : Prop)
    (mine yours : Enumerator) : Prop :=
  ∀ (command : Command) {a b : Scope}, command.Everywhere p → a.Agrees b → a.Everywhere p →
    ∀ ambient : Text,
      Branches.Resemble known p whole (mine command a ambient) (yours command b ambient)

namespace Enumerator.Resemble

variable {known : Session → Prop} {p : Command → Prop} {whole : Prop} {mine yours : Enumerator}
  {a b : Scope}

section Rules

variable (h : Enumerator.Resemble known p whole mine yours) (hagrees : a.Agrees b)
  (ha : a.Everywhere p)
include h hagrees ha

/-! ### Variables -/

/-- Both have the branches of a binding, or neither has any. -/
theorem binding (hknown : ∃ s, known s) (ambient name : Text) :
    (bindingBranches mine a ambient name = none ∧ bindingBranches yours b ambient name = none) ∨
      ∃ first second, (bindingBranches mine a ambient name = some first ∧
        bindingBranches yours b ambient name = some second) ∧
        Branches.Resemble known p whole first second := by
  -- agreeing scopes give the name one binding, so the two sides differ in the enumerators only
  unfold bindingBranches
  rw [← hagrees name]
  cases hlookup : a.lookup name with
  | none => exact .inl ⟨rfl, rfl⟩
  | some binding =>
    have hbinding := ha name binding hlookup
    cases binding with
    | evaluated text => exact .inr ⟨_, _, ⟨rfl, rfl⟩, .single ⟨rfl, hagrees⟩ ha⟩
    | deferred command previous =>
      have hcommand : command.Everywhere p := by
        cases hbinding with
        | deferred _ _ value _ => exact value
      refine .inr ⟨_, _, ⟨rfl, rfl⟩, .map hknown (h command hcommand (hagrees.push _)
        (ha.resolving name hbinding) ambient) fun branch other halike _ => ?_⟩
      exact ⟨⟨halike.text, hagrees⟩, ha⟩

/-- Looking at the target of a condition. -/
theorem target (hknown : ∃ s, known s) (ambient : Text) (key : Option Text) :
    Branches.Resemble known p whole (targetBranches mine a ambient key)
      (targetBranches yours b ambient key) := by
  cases key with
  | none => exact .single ⟨rfl, hagrees⟩ ha
  | some key =>
    simp only [targetBranches]
    rcases h.binding hagrees ha hknown ambient key with hnone | ⟨first, second, hsome, hboth⟩
    · rw [hnone.1, hnone.2]
      exact .single ⟨rfl, hagrees⟩ ha
    · rw [hsome.1, hsome.2]
      exact hboth

/-- Reading a variable: what it stands for, its default, or an error on both sides. -/
theorem access (hknown : ∃ s, known s) {fallback : Option Command}
    (hfallback : ∀ command ∈ fallback.toList, command.Everywhere p) (ambient name : Text) :
    Branches.Resemble known p whole (accessBranches mine a ambient name fallback)
      (accessBranches yours b ambient name fallback) := by
  unfold accessBranches
  rcases h.binding hagrees ha hknown ambient name with hnone | ⟨first, second, hsome, hboth⟩
  · rw [hnone.1, hnone.2]
    cases fallback with
    | none => exact .fail _
    | some command =>
      exact h command (hfallback command (List.mem_singleton_self _)) hagrees ha ambient
  · rw [hsome.1, hsome.2]
    exact hboth

/-- An assignment binds values that are alike. -/
theorem assignment (hknown : ∃ s, known s) {value : Command} (hvalue : value.Everywhere p)
    (ambient name : Text) (overwrite immediate : Bool) :
    Branches.Resemble known p whole
      (assignmentBranches mine a ambient name value overwrite immediate)
      (assignmentBranches yours b ambient name value overwrite immediate) := by
  unfold assignmentBranches
  rw [← hagrees.has_eq name, ← hagrees name]
  split
  · exact .single ⟨rfl, hagrees⟩ ha
  · split
    · refine .map hknown (h value hvalue hagrees ha ambient) fun branch other halike hscope => ?_
      rw [halike.text]
      exact ⟨⟨rfl, halike.scope.bind _ _⟩, hscope.bind (.evaluated _) _⟩
    · exact .single ⟨rfl, hagrees.bind _ _⟩
        (ha.bind (.deferred value _ hvalue fun binding => ha name binding) _)

/-- A condition, by induction on what is left of it. -/
theorem condition (hknown : ∃ s, known s) {branches : List (Guarded Command)} {otherwise : Command}
    (hbranches : ∀ branch ∈ branches, branch.value.Everywhere p)
    (hotherwise : otherwise.Everywhere p) (ambient : Text) :
    Branches.Resemble known p whole (conditionBranches mine otherwise ambient branches a)
      (conditionBranches yours otherwise ambient branches b) := by
  induction branches generalizing a b with
  | nil => exact h otherwise hotherwise hagrees ha ambient
  | cons branch branches ih =>
    refine .bind hknown (h.target hagrees ha hknown ambient branch.guard.key)
      fun target other halike hscope => ?_
    rw [← halike.text]
    split
    · exact h branch.value (hbranches branch List.mem_cons_self) halike.scope hscope ambient
    · exact ih halike.scope hscope fun other hmem => hbranches other (List.mem_cons_of_mem _ hmem)

/-! ### Several commands -/

/-- Nodes one after another, by induction on their list. -/
theorem product (hknown : ∃ s, known s) {children : List Command}
    (hchildren : ∀ child ∈ children, child.Everywhere p) (ambient : Text) :
    Branches.Resemble known p whole (product mine children a ambient)
      (product yours children b ambient) := by
  induction children generalizing a b ambient with
  | nil => exact .single ⟨rfl, hagrees⟩ ha
  | cons child children ih =>
    refine .bind hknown (h child (hchildren child List.mem_cons_self) hagrees ha ambient)
      fun first other halike hscope => ?_
    rw [← halike.text]
    have hrest := ih halike.scope hscope
      (fun child hmem => hchildren child (List.mem_cons_of_mem _ hmem)) (ambient ++ first.text)
    refine .map hknown hrest fun rest last halike' hscope' => ?_
    exact ⟨⟨congrArg (first.text ++ ·) halike'.text, halike'.scope⟩, hscope'⟩

/-- Values that are joined, by induction on those that are left. -/
theorem joined (hknown : ∃ s, known s) {values : List Command}
    (hvalues : ∀ value ∈ values, value.Everywhere p) (separator ambient : Text)
    (parts : List Text) :
    Branches.Resemble known p whole (joinedBranches mine separator ambient parts values a)
      (joinedBranches yours separator ambient parts values b) := by
  induction values generalizing a b parts with
  | nil => exact .single ⟨rfl, hagrees⟩ ha
  | cons value values ih =>
    refine .bind hknown (h value (hvalues value List.mem_cons_self) hagrees ha ambient)
      fun first other halike hscope => ?_
    rw [← halike.text]
    exact ih halike.scope hscope (fun value hmem => hvalues value (List.mem_cons_of_mem _ hmem)) _

/-- A wrapping: what is wrapped, and then the wrapper. -/
theorem wrap (hknown : ∃ s, known s) {wrapper inner : Command} (hwrapper : wrapper.Everywhere p)
    (hinner : inner.Everywhere p) (ambient : Text) :
    Branches.Resemble known p whole (wrapBranches mine a ambient wrapper inner)
      (wrapBranches yours b ambient wrapper inner) := by
  refine .bind hknown (h inner hinner hagrees ha ambient) fun first other halike hscope => ?_
  refine .map hknown (h wrapper hwrapper halike.scope hscope ambient)
    fun around last halike' hscope' => ?_
  rw [halike.text, halike'.text]
  exact ⟨⟨rfl, halike'.scope⟩, hscope'⟩

/-! ### Choices -/

/-- A variant goes through the same choices. -/
theorem variant (hknown : ∃ s, known s) {options : List (Weighted Command)}
    (hoptions : ∀ value ∈ options.map (·.value), value.Everywhere p) (least most : Nat)
    (separator ambient : Text) :
    Branches.Resemble known p whole (variantBranches mine options least most separator a ambient)
      (variantBranches yours options least most separator b ambient) := by
  unfold variantBranches
  cases hchoices : variantChoices (options.map (·.weight)) least most with
  | nil => exact .single ⟨rfl, hagrees⟩ ha
  | cons choice choices =>
    refine .forEach fun chosen hmem => h.joined hagrees ha hknown (fun value hvalue => ?_) _ _ _
    rw [← hchoices] at hmem
    exact hoptions value ((optionsAt_sublist hmem).subset hvalue)

/-- A part with a chance, with it or without it. -/
theorem probability {value : Command} (hvalue : value.Everywhere p) (chance : Rat)
    (ambient : Text) :
    Branches.Resemble known p whole (probabilityBranches mine chance value a ambient)
      (probabilityBranches yours chance value b ambient) := by
  refine .forEach fun included _ => ?_
  cases included with
  | true => exact h value hvalue hagrees ha ambient
  | false => exact .single ⟨rfl, hagrees⟩ ha

/-! ### Wildcards -/

/-- The name of a wildcard. -/
theorem name {name : WildcardName Command} (hname : ∀ part ∈ name.parts, part.Everywhere p)
    (ambient : Text) :
    Branches.Resemble known p whole (nameBranches mine a ambient name)
      (nameBranches yours b ambient name) := by
  cases name with
  | fixed name => exact .single ⟨rfl, hagrees⟩ ha
  | rendered command =>
    exact h command (hname command (List.mem_singleton_self _)) hagrees ha ambient

end Rules

section Trees

variable {env : Environment} {tree : Text → Except WalkError Command}
  {keptMine keptYours : Branches → Branches}

/-- The candidates of a name. The table of a session never changes what it gives for a value, so
both sides get the same ones. -/
theorem candidates (h : Enumerator.Resemble (Session.Reads env.grammar tree) p whole mine yours)
    (hknown : ∃ s, Session.Reads env.grammar tree s)
    (hcandidates : ∀ name found, wildcardTrees env tree name .combinatorial = .ok found →
      ∀ candidate ∈ found, candidate.Everywhere p)
    {inlined : List (Text × Command)} (hinlined : ∀ v ∈ inlined, v.2.Everywhere p)
    {name other : Branch} (halike : name.Alike other) (hscope : name.scope.Everywhere p)
    (ambient : Text) :
    Branches.Resemble (Session.Reads env.grammar tree) p whole
      (candidateBranches env mine inlined ambient name)
      (candidateBranches env yours inlined ambient other) := by
  obtain ⟨text, a⟩ := name
  obtain ⟨text', b⟩ := other
  obtain ⟨rfl, hagrees⟩ := halike
  rw [Comparison.Choosing.candidateBranches_eq, Comparison.Choosing.candidateBranches_eq]
  refine .ofSession (fun s hs => hs.wildcardCandidates env text .combinatorial)
    fun found hfound => ?_
  -- the inner scope is dropped behind a candidate, and the scopes left are
  -- those that agreed before
  split
  · exact .single ⟨rfl, hagrees⟩ hscope
  · refine .forEach fun candidate hmem => ?_
    rw [← hagrees.inlineFrame_eq inlined]
    refine .map hknown (h candidate (hcandidates text found hfound candidate hmem) (hagrees.push _)
      (hscope.inlining hinlined) ambient) fun branch last halike' _ => ?_
    exact ⟨⟨halike'.text, hagrees⟩, hscope⟩

/-- One node, where no node is forced to be drawn or to rotate, and where resembling names are
still so when some of their branches are left out. -/
theorem node (h : Enumerator.Resemble (Session.Reads env.grammar tree) p whole mine yours)
    (hknown : ∃ s, Session.Reads env.grammar tree s)
    (hdeclared : ∀ command, p command →
      command.declared = none ∨ command.declared = some .combinatorial)
    (hcandidates : ∀ name found, wildcardTrees env tree name .combinatorial = .ok found →
      ∀ candidate ∈ found, candidate.Everywhere p)
    (hkept : ∀ {first second : Branches},
      Branches.Resemble (Session.Reads env.grammar tree) p whole first second →
      Branches.Resemble (Session.Reads env.grammar tree) p whole (keptMine first)
        (keptYours second)) :
    Enumerator.Resemble (Session.Reads env.grammar tree) p whole
      (enumerateNode env keptMine mine) (enumerateNode env keptYours yours) := by
  intro command a b hcommand hagrees ha ambient
  -- all parts have the property, and no override can take the node out of the enumeration
  have hparts : ∀ part ∈ command.parts, part.Everywhere p := fun part => hcommand.of_part
  have hunforced := hdeclared command hcommand.here
  cases command with
  | literal text => exact .single ⟨rfl, hagrees⟩ ha
  | comment text => exact .single ⟨rfl, hagrees⟩ ha
  | sequence children =>
    have hproduct := h.product hagrees ha hknown hparts ambient
    rw [← sequenceBranches_eq_product, ← sequenceBranches_eq_product] at hproduct
    exact hproduct
  | variant label options least most separator sampling =>
    exact (h.variant hagrees ha hknown hparts least most separator ambient).byMethod hunforced
  | wildcard label name inlined sampling =>
    have hnames := hkept (h.name hagrees ha
      (fun part hmem => hparts part (List.mem_append_left _ hmem)) ambient)
    have hinlined : ∀ v ∈ inlined, v.2.Everywhere p := fun v hmem =>
      hparts v.2 (List.mem_append_right _ (List.mem_map_of_mem hmem))
    exact Branches.Resemble.byMethod (hnames.bind hknown fun branch other halike hscope =>
      h.candidates hknown hcandidates hinlined halike hscope ambient) hunforced
  | wrap wrapper inner =>
    exact h.wrap hagrees ha hknown (hparts wrapper List.mem_cons_self)
      (hparts inner (List.mem_cons_of_mem _ (List.mem_singleton_self _))) ambient
  | probability label chance value sampling =>
    exact (h.probability hagrees ha (hparts value (List.mem_singleton_self _)) chance
      ambient).byMethod hunforced
  | condition branches otherwise =>
    refine h.condition hagrees ha hknown (fun branch hmem => ?_) (hparts otherwise ?_) ambient
    · exact hparts branch.value (List.mem_append_left _ (List.mem_map_of_mem hmem))
    · exact List.mem_append_right _ (List.mem_singleton_self _)
  | access name fallback => exact h.access hagrees ha hknown hparts ambient name
  | assignment name value overwrite immediate =>
    exact h.assignment hagrees ha hknown (hparts value (List.mem_singleton_self _)) ambient name _ _

end Trees

end Enumerator.Resemble

end PromptTemplate
