/-
`Unmarked.lean` -- templates without wildcards and markers.

Where no wildcards and no markers bring in other nodes or other methods, the nodes of a tree all
come from one reading and render by one method. So rendering moves no nodes but these, and those
only by rotating (`Likeness.resting`), and a rotation reads nothing else of the session
(`Likeness.sharing`).
-/
import PromptTemplate.Proofs.Expansion.Cycles
import PromptTemplate.Proofs.Generation.Prompts
import PromptTemplate.Proofs.Template.Doubles
import PromptTemplate.Proofs.Template.Origins

set_option autoImplicit false

namespace PromptTemplate

/-! ## 1. Templates without wildcards and markers -/

/-- The node stands for no wildcard values and has no method of its own. -/
def Command.isUnmarked : Command → Bool
  | .wildcard _ _ _ _ => false
  | command => command.declared.isNone

/-- Such a node, read from an origin. -/
structure Command.UnmarkedFrom (origin : Origin) (command : Command) : Prop where
  unmarked : command.isUnmarked = true
  label : ∀ label, command.label? = some label → label.origin = origin

theorem Command.UnmarkedFrom.not_wildcard {origin : Origin} {label : Label}
    {name : WildcardName Command} {inlined : List (Text × Command)} {sampling : Option Sampling}
    (h : (Command.wildcard label name inlined sampling).UnmarkedFrom origin) : False :=
  nomatch h.unmarked

theorem Command.UnmarkedFrom.declared_eq {origin : Origin} {command : Command}
    (h : command.UnmarkedFrom origin) : command.declared = none := by
  have hunmarked := h.unmarked
  cases command with
  | wildcard => cases hunmarked
  | _ => exact Option.isNone_iff_eq_none.1 hunmarked

/-- Other labels do not mark a node. -/
theorem Command.isUnmarked_relabelled (f : Label → Label) (command : Command) :
    (command.relabelled f).isUnmarked = command.isUnmarked := by
  cases command with
  | access name fallback => cases fallback <;> rfl
  | _ => rfl

/-- There are only such nodes in the template, if it can be read at all. -/
def Grammar.Unmarked (g : Grammar) (source : Text) : Prop :=
  ∀ tree ∈ (g.parse (.template 0) source).toOption, tree.Everywhere (·.isUnmarked = true)

instance (g : Grammar) (source : Text) : Decidable (g.Unmarked source) :=
  inferInstanceAs (Decidable (∀ tree ∈ (g.parse (.template 0) source).toOption,
    tree.Everywhere (·.isUnmarked = true)))

/-- Then there are under whatever number it is read, for other numbers give other labels only. -/
theorem Grammar.Unmarked.everywhere {g : Grammar} (hopens : g.Opens) {source : Text}
    (h : g.Unmarked source) {number : Nat} {tree : Command}
    (hparse : g.parse (.template number) source = .ok tree) :
    tree.Everywhere (Command.UnmarkedFrom (.template number)) := by
  have hread : g.parse (.template number) source = (g.parse (.template 0) source).map
      (Command.relabelled fun label => ⟨label.place, .template number⟩) :=
    Template.parse_relabelled hopens (fun _ => rfl) source
  obtain ⟨first, hfirst, rfl⟩ := exists_of_map_ok (hread.symm.trans hparse)
  have hunmarked := (h first (by rw [hfirst]; rfl)).mono fun c hc =>
    (Command.isUnmarked_relabelled (fun label => ⟨label.place, .template number⟩) c).trans hc
  exact (hunmarked.relabelled.and (parse_readFrom hparse)).mono fun c hc => ⟨hc.1, hc.2.label⟩

/-! ## 2. What rendering moves and reads -/

/-- A turn moves the node whose turn it is. -/
theorem Counters.position_next (c : Counters) (label other : Label) {size : Nat}
    (hsize : 0 < size) :
    (c.next label size).2.position other =
      if other = label then (c.position label % size + 1) % size else c.position other := by
  obtain ⟨-, hmoved, hrest⟩ := c.next_eq label hsize
  split
  · next h => rw [h, hmoved]
  · next h => exact hrest other fun hmem => h (List.mem_singleton.1 hmem)

namespace Likeness

/-- A session is like itself as long as the nodes of an origin stand where they stood. -/
def resting (origin : Origin) (position : Label → Nat) : Likeness where
  alike s t := s = t ∧ ∀ label, label.origin = origin → s.counters.position label = position label
  allowed _ := True

/-- The nodes of a tree without markers and wildcards, by some methods. -/
def unmarked (origin : Origin) (methods : Sampling → Prop)
    (hwalked : ∀ {method}, methods method → methods method.walked) : Reach :=
  .everywhere (Command.UnmarkedFrom origin) methods hwalked fun hnode hdeclared => by
    rw [hnode.declared_eq] at hdeclared
    cases hdeclared

/-- A tree without markers and wildcards is rendered by the method that is asked for. -/
theorem unmarked_visits {origin : Origin} {methods : Sampling → Prop}
    (hwalked : ∀ {method}, methods method → methods method.walked) {tree : Command}
    (htree : tree.Everywhere (Command.UnmarkedFrom origin)) {method : Sampling}
    (hmethod : method ≠ .combinatorial → methods method) :
    (unmarked origin methods hwalked).visits method.manner tree :=
  ⟨htree, Reach.permits_manner hmethod fun _ _ _ _ _ hnode => hnode.not_wildcard.elim⟩

/-- Only drawing, or walking nodes of other origins, leaves these nodes at rest. -/
theorem rests_walked (origin own : Origin) {method : Sampling}
    (h : method = .random ∨ own ≠ origin) : method.walked = .random ∨ own ≠ origin :=
  h.imp_left Sampling.walked_eq_random.2

/-- Drawing moves no node, and nodes of other origins move none of this one. -/
theorem resting_kept (env : Environment) (origin own : Origin) (position : Label → Nat) :
    (resting origin position).Kept env
      (unmarked own (fun method => method = .random ∨ own ≠ origin) (rests_walked origin own))
      (fun _ _ => False) where
  unknown _ := trivial
  tooDeep := trivial
  turn {_ _ label} hvisited hrandom hlabel size hsize s t halike := by
    -- a turn moves one label, and the labels of the other origin stand where they stood
    obtain ⟨hnode, hmethod⟩ := hvisited
    rw [hnode.here.declared_eq] at hrandom
    obtain ⟨rfl, hrest⟩ := halike
    refine ⟨rfl, rfl, fun other hother => ?_⟩
    have hne : other ≠ label := by
      rintro rfl
      exact (hmethod.resolve_left hrandom) ((hnode.here.label _ hlabel).symm.trans hother)
    rw [Counters.position_next _ _ _ hsize, if_neg hne, hrest other hother]
  draw _ _ s t halike := by
    obtain ⟨rfl, hrest⟩ := halike
    exact ⟨rfl, fun drawn => ⟨rfl, hrest⟩⟩
  option _ _ _ := .inl trivial
  candidate _ _ := .inl trivial
  asking hvisited := hvisited.1.here.not_wildcard.elim
  passed _ _ hoffered := hoffered.elim

theorem resting_reports (origin : Origin) (position : Label → Nat) :
    (resting origin position).Reports := by
  rintro s t notice ⟨rfl, hrest⟩
  exact ⟨rfl, hrest⟩

/-- Two sessions in which the nodes of an origin stand alike. -/
def sharing (origin : Origin) : Likeness where
  alike s t :=
    ∀ label, label.origin = origin → s.counters.position label = t.counters.position label
  allowed _ := True

/-- Walking on from rotating is rotating. -/
theorem rotates_walked {method : Sampling} (h : method = .cyclical) :
    method.walked = .cyclical := by
  rw [h]
  rfl

/-- Rotating reads and moves the nodes of a tree and takes no draws. -/
theorem sharing_kept (env : Environment) (origin : Origin) :
    (sharing origin).Kept env (unmarked origin (· = .cyclical) rotates_walked)
      (fun _ _ => False) where
  unknown _ := trivial
  tooDeep := trivial
  turn {_ _ label} hvisited _ hlabel size hsize s t halike := by
    -- the label is of this origin, so it stands alike in both and the turn gives the same place
    have hsame := halike label (hvisited.1.here.label _ hlabel)
    refine ⟨hsame, fun other hother => ?_⟩
    dsimp only
    rw [Counters.position_next _ _ _ hsize, Counters.position_next _ _ _ hsize, hsame,
      halike other hother]
  draw hvisited hrandom := by
    obtain ⟨hnode, hmethod⟩ := hvisited
    rw [hnode.here.declared_eq, Option.getD_none,
      show _ = Sampling.cyclical from hmethod] at hrandom
    cases hrandom
  option _ _ _ := .inl trivial
  candidate _ _ := .inl trivial
  asking hvisited := hvisited.1.here.not_wildcard.elim
  passed _ _ hoffered := hoffered.elim

theorem sharing_reports (origin : Origin) : (sharing origin).Reports := fun _ _ _ halike => halike

end Likeness

/-- What rendering several times comes to, if it comes to anything: the first text, and what
rendering as often as remains comes to behind it. -/
theorem exists_of_renderRepeatedly {env : Environment} {command : Command} {method : Sampling}
    {count : Nat} {s after : Session} {texts : List Text}
    (h : renderRepeatedly env command method (count + 1) s = (.ok texts, after)) :
    ∃ first w rest, renderOnce env command method [] ⟨.root [], s⟩ = (.ok first, w) ∧
      renderRepeatedly env command method count w.session = (.ok rest, after) ∧
      texts = first :: rest := by
  rw [renderRepeatedly] at h
  split at h
  · cases h
  · next first w hfirst =>
    split at h
    · cases h
    · next rest last hrest =>
      cases h
      exact ⟨first, w, rest, hfirst, hrest, rfl⟩

/-- Rendering on from where a session was left gives what rendering through gives. -/
theorem renderRepeatedly_add (env : Environment) (command : Command) (method : Sampling) {a : Nat}
    {s between : Session} {first : List Text}
    (h : renderRepeatedly env command method a s = (.ok first, between)) {b : Nat}
    {rest : List Text} {after : Session}
    (hrest : renderRepeatedly env command method b between = (.ok rest, after)) :
    renderRepeatedly env command method (a + b) s = (.ok (first ++ rest), after) := by
  induction a generalizing s first with
  | zero =>
    cases h
    rw [Nat.zero_add]
    exact hrest
  | succ a ih =>
    obtain ⟨text, w, texts, hone, hmore, rfl⟩ := exists_of_renderRepeatedly h
    rw [Nat.succ_add, renderRepeatedly, hone]
    dsimp only
    rw [ih hmore]
    rfl

/-- In rotation prompts are rendered one by one; a call leaves something to report besides. -/
theorem Command.prompts_cyclical (env : Environment) (command : Command) (count : Nat)
    (s : Session) :
    (command.prompts env .cyclical count s).1 = (renderRepeatedly env command .cyclical count s).1 ∧
      (command.prompts env .cyclical count s).2.counters =
        (renderRepeatedly env command .cyclical count s).2.counters := by
  unfold Command.prompts
  cases count with
  | zero => exact ⟨rfl, rfl⟩
  | succ count =>
    rw [if_neg (Nat.succ_ne_zero _), if_neg (by decide)]
    generalize renderRepeatedly env command .cyclical (count + 1) s = run
    obtain ⟨result, after⟩ := run
    cases result <;> exact ⟨rfl, rfl⟩

/-- Two calls in rotation give what one does for as many prompts as both. -/
theorem Command.prompts_add (env : Environment) {command : Command} {origin : Origin}
    (hcommand : command.Everywhere (Command.UnmarkedFrom origin)) {a b : Nat} {s : Session}
    {first rest : List Text} (h : (command.prompts env .cyclical a s).1 = .ok first)
    (hrest : (command.prompts env .cyclical b (command.prompts env .cyclical a s).2).1 = .ok rest) :
    (command.prompts env .cyclical (a + b) s).1 = .ok (first ++ rest) := by
  obtain ⟨hfirst, hcounters⟩ := command.prompts_cyclical env a s
  rw [hfirst] at h
  rw [(command.prompts_cyclical env b _).1] at hrest
  rw [(command.prompts_cyclical env (a + b) s).1]
  cases hrun : renderRepeatedly env command .cyclical a s with
  | mk result between =>
    rw [hrun] at h hcounters
    obtain rfl : result = .ok first := h
    -- the second call goes on behind the report, where all nodes stand as before it
    have halike : (Likeness.sharing origin).alike (command.prompts env .cyclical a s).2 between :=
      fun label _ => congrArg (Counters.position · label) hcounters
    have hreplies :=
      (Likeness.sharing_kept env origin).answers_renderRepeatedly ⟨hcommand, rfl⟩ b _ _ halike
    rcases hreplies.elim with ⟨texts, s', t', hmine, hyours, -⟩ | ⟨error, s', t', hmine, -⟩
    · rw [hmine] at hrest
      cases hrest
      rw [renderRepeatedly_add env command .cyclical hrun hyours]
    · rw [hmine] at hrest
      cases hrest

end PromptTemplate
