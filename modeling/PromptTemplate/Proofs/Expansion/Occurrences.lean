/-
`Occurrences.lean` -- where the two forms of a part may meet.

Three pairings. In the first one both sides are the same (`Pairing.same`). In the second one the
part occurs once, and it may draw itself although nothing around it does (`Pairing.once`). The
place of the part is then in the nodes that are still to be rendered, or in what one variable
stands for, and never in both: while the part renders, the assignment that holds it is being
rendered, or the variable that keeps it reads as what it was before. So behind the part both sides
are the same. In the third one the part occurs any number of times, in nodes and in scopes, and
nothing draws at all (`Pairing.throughout`).
-/
import Mathlib.Data.List.Pairwise
import PromptTemplate.Proofs.Expansion.Pairing

set_option autoImplicit false

namespace PromptTemplate

/-- The node does not force a draw. -/
def Command.NeverDraws (command : Command) : Prop := command.declared ≠ some .random

instance : DecidablePred Command.NeverDraws :=
  fun command => inferInstanceAs (Decidable (command.declared ≠ some .random))

/-- A node that declares nothing never draws. -/
theorem Command.NeverDraws.of_declared_eq_none {command : Command} (h : command.declared = none) :
    command.NeverDraws := by
  rw [NeverDraws, h]
  exact (Option.some_ne_none _).symm

/-- A node that never draws does not draw under another method than drawing. -/
theorem Command.NeverDraws.method_ne {command : Command} (h : command.NeverDraws)
    {method : Sampling} (hmethod : method ≠ .random) : command.declared.getD method ≠ .random := by
  unfold NeverDraws at h
  cases hdeclared : command.declared with
  | none => exact hmethod
  | some declared => exact fun heq => h (hdeclared.trans (congrArg some heq))

/-- Walking by another method than drawing is not drawing. -/
theorem Sampling.walked_ne {method : Sampling} (h : method ≠ .random) : method.walked ≠ .random :=
  mt walked_eq_random.1 h

/-- Two different forms are never paired: they are of two kinds. -/
theorem Inclusion.Forms.not_paired {x : Inclusion} {command other : Command}
    (h : x.Forms command other) (parts : List (Command × Command)) :
    ¬command.Paired other parts := by
  intro hpaired
  rcases h with ⟨hcommand, hother⟩ | ⟨hcommand, hother⟩ <;> cases hpaired <;>
    first
    | exact Command.noConfusion hcommand
    | exact Command.noConfusion hother

namespace Pairing

variable {x : Inclusion} {candidate : Command → Prop}

/-! ## 1. The same on both sides -/

/-- Both sides render the same nodes, in scopes that answer alike. -/
structure Same (pairs : List (Command × Command)) (a b : Scope) : Prop where
  nodes : ∀ pair ∈ pairs, pair.1 = pair.2
  scopes : a.Agrees b

namespace Same

variable {pair value : Command × Command} {pairs others below : List (Command × Command)}
  {a b : Scope}

/-- Fewer pairs are the same, too. -/
theorem of_mem (h : Same pairs a b) (hsub : ∀ pair ∈ others, pair ∈ pairs) : Same others a b :=
  ⟨fun pair hmem => h.nodes pair (hsub pair hmem), h.scopes⟩

/-- Two equal nodes pair their parts. -/
theorem shape (h : Same (pair :: pairs) a b) : ∃ below, pair.1.Paired pair.2 below := by
  rw [← h.nodes pair List.mem_cons_self]
  exact ⟨_, .refl pair.1⟩

/-- Two equal nodes are not the two forms, which differ. -/
theorem not_forms (h : Same (pair :: pairs) a b) : ¬x.Forms pair.1 pair.2 :=
  fun hforms => hforms.ne (h.nodes pair List.mem_cons_self)

/-- The parts of equal nodes are equal. -/
theorem parts (h : Same (pair :: pairs) a b) (hpaired : pair.1.Paired pair.2 below) :
    Same (below ++ pairs) a b := by
  obtain ⟨hpair, hpairs⟩ := List.forall_mem_cons.1 h.nodes
  rw [← hpair] at hpaired
  exact ⟨List.forall_mem_append.2 ⟨hpaired.eq_of_self, hpairs⟩, h.scopes⟩

/-- What is bound to a name is the same on both sides, so its command is. -/
theorem binding (h : Same pairs a b) (name : Text) :
    Reading Same a b name (a.lookup name) (b.lookup name) := by
  rw [← h.scopes name]
  cases a.lookup name with
  | none => exact .none
  | some binding =>
    cases binding with
    | evaluated text => exact .evaluated text
    | deferred command previous =>
      exact .deferred ⟨List.forall_mem_singleton.2 rfl, h.scopes.push _⟩

/-- Equal inline variables are bound to equal commands. -/
theorem inline {inlined : List (Text × Command × Command)} (h : Same (inlined.map Prod.snd) a b)
    (command : Command) :
    Same [(command, command)] (a.push (inlineFrame a (inlined.map fun v => (v.1, v.2.1))))
      (b.push (inlineFrame b (inlined.map fun v => (v.1, v.2.2)))) := by
  have hinlined : (inlined.map fun v => (v.1, v.2.2)) = inlined.map fun v => (v.1, v.2.1) :=
    List.map_congr_left fun v hmem => by rw [h.nodes v.2 (List.mem_map_of_mem hmem)]
  rw [hinlined, ← h.scopes.inlineFrame_eq]
  exact ⟨List.forall_mem_singleton.2 rfl, h.scopes.push _⟩

/-- A finished text is bound on both sides. -/
theorem evaluate (h : Same pairs a b) (name text : Text) :
    Same pairs (a.bind name (.evaluated text)) (b.bind name (.evaluated text)) :=
  ⟨h.nodes, h.scopes.bind _ _⟩

/-- Equal values are bound for later on both sides. -/
theorem defer (h : Same (value :: pairs) a b) (name : Text) :
    Same pairs (a.bind name (.deferred value.1 (a.lookup name)))
      (b.bind name (.deferred value.2 (b.lookup name))) := by
  obtain ⟨hvalue, hpairs⟩ := List.forall_mem_cons.1 h.nodes
  rw [← hvalue, ← h.scopes name]
  exact ⟨hpairs, h.scopes.bind _ _⟩

end Same

/-- Both sides are the same, and may do everything. -/
def same (x : Inclusion) (candidate : Command → Prop) : Pairing x candidate where
  admits _ := Same
  sub h hsub := h.of_mem fun _ hmem => hsub.subset hmem
  shape h := .inr h.shape
  parts h := h.parts
  declared h := h
  walked h := h
  value h hforms := absurd hforms h.not_forms
  again h hmem := h.of_mem (List.forall_mem_cons.2 ⟨hmem, fun _ => id⟩)
  free h _ := h
  binding h := h.binding
  inline h _ := h.inline _
  evaluate h := h.evaluate
  defer h := h.defer

/-- Any tree may be rendered beside itself, from one scope. -/
theorem same_admits (method : Sampling) (command : Command) (scope : Scope) :
    (same x candidate).admits method [(command, command)] scope scope :=
  ⟨List.forall_mem_singleton.2 rfl, .refl scope⟩

/-! ## 2. One occurrence among nodes -/

/-- Both sides have the same tree, and nothing in it draws. -/
def Calm (pair : Command × Command) : Prop :=
  pair.1 = pair.2 ∧ pair.1.Everywhere Command.NeverDraws

/-- The part occurs in at most one of the trees, and nothing around it draws. -/
structure AtMostOnce (x : Inclusion) (pairs : List (Command × Command)) : Prop where
  each : ∀ pair ∈ pairs, Calm pair ∨ pair.1.Replaced Command.NeverDraws x.Forms pair.2
  once : pairs.Pairwise fun pair other => Calm pair ∨ Calm other

section AtMostOnce

variable {pair : Command × Command} {pairs others below : List (Command × Command)}

/-- The parts of a calm pair are calm. -/
theorem Calm.parts (h : Calm pair) (hpaired : pair.1.Paired pair.2 below) :
    ∀ part ∈ below, Calm part := by
  intro part hmem
  have hself := hpaired
  rw [← h.1] at hself
  exact ⟨hself.eq_of_self part hmem, h.2.of_part (hpaired.fst_mem hmem)⟩

/-- A calm pair is one node twice, so it is not the two forms. -/
theorem Calm.not_forms (h : Calm pair) : ¬x.Forms pair.1 pair.2 := fun hforms => hforms.ne h.1

namespace AtMostOnce

/-- Among calm pairs there is no occurrence. -/
theorem of_calm (h : ∀ pair ∈ pairs, Calm pair) : AtMostOnce x pairs :=
  ⟨fun pair hmem => .inl (h pair hmem), List.pairwise_of_forall_mem_list fun pair hmem _ _ =>
    .inl (h pair hmem)⟩

/-- Among fewer pairs there are no more occurrences. -/
theorem sub (h : AtMostOnce x pairs) (hsub : others.Subperm pairs) : AtMostOnce x others := by
  obtain ⟨kept, hperm, hsublist⟩ := hsub
  exact ⟨fun pair hmem => h.each pair (hsublist.subset (hperm.symm.subset hmem)),
    (h.once.sublist hsublist).perm hperm fun {_ _} => Or.symm⟩

/-- Behind a tree with the part nothing else has it. -/
theorem rest (h : AtMostOnce x (pair :: pairs)) (hpair : ¬Calm pair) :
    ∀ other ∈ pairs, Calm other :=
  fun other hmem => ((List.pairwise_cons.1 h.once).1 other hmem).resolve_left hpair

/-- A single pair, in which the part was replaced once, holds one occurrence. -/
theorem single (h : pair.1.Replaced Command.NeverDraws x.Forms pair.2) : AtMostOnce x [pair] :=
  ⟨List.forall_mem_singleton.2 (.inr h), List.pairwise_singleton _ _⟩

/-- The part is in at most one of the parts of a node that has it. -/
theorem of_paired (h : Calm pair ∨ pair.1.Replaced Command.NeverDraws x.Forms pair.2)
    (hpaired : pair.1.Paired pair.2 below) : AtMostOnce x below := by
  -- a replaced node is the one place that differs, so at most one part below can hold it
  rcases h with hcalm | hreplaced
  · exact .of_calm (hcalm.parts hpaired)
  · obtain ⟨command, other⟩ := pair
    cases hreplaced with
    | here hforms => exact absurd hpaired (hforms.not_paired below)
    | @inside _ _ part stead before behind _ hparts hbeside hpart =>
      obtain rfl := hpaired.unique hparts
      obtain ⟨hbefore, hbehind⟩ := List.forall_mem_append.1 hbeside
      refine ⟨List.forall_mem_append.2 ⟨fun beside hmem => .inl (hbefore beside hmem),
        List.forall_mem_cons.2 ⟨.inr hpart, fun beside hmem => .inl (hbehind beside hmem)⟩⟩, ?_⟩
      refine List.pairwise_append.2 ⟨(of_calm (x := x) hbefore).once,
        List.pairwise_cons.2 ⟨fun beside hmem => .inr (hbehind beside hmem),
          (of_calm (x := x) hbehind).once⟩, fun beside hmem _ _ => .inl (hbefore beside hmem)⟩

/-- The occurrence is the pair itself, or goes to one of its parts. -/
theorem parts (h : AtMostOnce x (pair :: pairs)) (hpaired : pair.1.Paired pair.2 below) :
    AtMostOnce x (below ++ pairs) := by
  obtain ⟨hpair, hpairs⟩ := List.forall_mem_cons.1 h.each
  have hbelow := of_paired hpair hpaired
  refine ⟨List.forall_mem_append.2 ⟨hbelow.each, hpairs⟩, List.pairwise_append.2
    ⟨hbelow.once, (List.pairwise_cons.1 h.once).2, fun part hpart other hother => ?_⟩⟩
  -- either the node is the same on both sides, or everything behind it is
  by_cases hcalm : Calm pair
  · exact .inl (hcalm.parts hpaired part hpart)
  · exact .inr (h.rest hcalm other hother)

/-- A pair is the two forms, or two nodes of one kind with their parts. -/
theorem shape (h : AtMostOnce x (pair :: pairs)) :
    x.Forms pair.1 pair.2 ∨ ∃ below, pair.1.Paired pair.2 below := by
  rcases h.each pair List.mem_cons_self with hcalm | hreplaced
  · rw [← hcalm.1]
    exact .inr ⟨_, .refl pair.1⟩
  · cases hreplaced with
    | here hforms => exact .inl hforms
    | inside _ hpaired _ _ => exact .inr ⟨_, hpaired⟩

/-- No method is forced on the part, nor on what is around it. -/
theorem declared_ne (h : AtMostOnce x (pair :: pairs)) (hdraws : x.sampling ≠ some .random)
    {method : Sampling} (hmethod : method ≠ .random) :
    pair.1.declared.getD method ≠ .random := by
  have hpair : pair.1.NeverDraws := by
    rcases h.each pair List.mem_cons_self with hcalm | hreplaced
    · exact hcalm.2.here
    · cases hreplaced with
      | here hforms =>
        rw [Command.NeverDraws, hforms.declared]
        exact hdraws
      | inside hcommand _ _ _ => exact hcommand
  exact hpair.method_ne hmethod

end AtMostOnce

end AtMostOnce

/-! ## 3. One occurrence in a scope -/

/-- Both sides say the same of a name, and nothing in it draws. -/
def Clear (mine yours : Option Binding) : Prop :=
  mine = yours ∧ ∀ binding, mine = some binding → binding.Everywhere Command.NeverDraws

/-- The part occurs once in what a name stands for, or in what it stood for before. -/
inductive Kept (x : Inclusion) : Option Binding → Option Binding → Prop
  | value {command other : Command} {previous : Option Binding}
      (hcommand : command.Replaced Command.NeverDraws x.Forms other)
      (hprevious : Clear previous previous) :
      Kept x (some (.deferred command previous)) (some (.deferred other previous))
  | earlier {command : Command} {earlier previous : Option Binding}
      (hcommand : command.Everywhere Command.NeverDraws) (hearlier : Kept x earlier previous) :
      Kept x (some (.deferred command earlier)) (some (.deferred command previous))

/-- The part occurs under one name at most, and the scopes answer all others alike. -/
structure Standing (x : Inclusion) (spot : Option Text) (a b : Scope) : Prop where
  clear : ∀ name, spot ≠ some name → Clear (a.lookup name) (b.lookup name)
  kept : ∀ name, spot = some name → Kept x (a.lookup name) (b.lookup name)

section Standing

variable {a b a' b' : Scope} {spot after : Option Text} {mine yours : Option Binding}

/-- A finished text holds no occurrence. -/
theorem Clear.evaluated (text : Text) : Clear (some (.evaluated text)) (some (.evaluated text)) :=
  ⟨rfl, fun _ h => Option.some_inj.1 h ▸ .evaluated text⟩

/-- A command that never draws holds none, and neither does what it replaced. -/
theorem Clear.deferred (h : Clear mine yours) {command : Command}
    (hcommand : command.Everywhere Command.NeverDraws) :
    Clear (some (.deferred command mine)) (some (.deferred command yours)) :=
  ⟨by rw [h.1], fun _ heq => Option.some_inj.1 heq ▸ .deferred command mine hcommand h.2⟩

namespace Standing

/-- Two scopes that agree hold none. -/
theorem of_agrees (h : a.Agrees b) (hnever : a.Everywhere Command.NeverDraws) :
    Standing x none a b :=
  ⟨fun name _ => ⟨h name, hnever name⟩, fun _ hspot => by cases hspot⟩

/-- Two scopes without an occurrence agree. -/
theorem agrees (h : Standing x none a b) : a.Agrees b := fun name => (h.clear name nofun).1

/-- One name is given another answer on both sides. -/
theorem set (h : Standing x spot a b) {name : Text}
    (ha : ∀ other, a'.lookup other = if other = name then mine else a.lookup other)
    (hb : ∀ other, b'.lookup other = if other = name then yours else b.lookup other)
    (hothers : ∀ other, other ≠ name → (after = some other ↔ spot = some other))
    (hclear : after ≠ some name → Clear mine yours)
    (hkept : after = some name → Kept x mine yours) :
    Standing x after a' b' := by
  -- the name has its new answer; every other name has its old one, and is the spot if it was
  constructor <;> intro other hafter <;> rw [ha, hb] <;> by_cases hname : other = name
  · rw [if_pos hname, if_pos hname]
    exact hclear (hname ▸ hafter)
  · rw [if_neg hname, if_neg hname]
    exact h.clear other fun hspot => hafter ((hothers other hname).2 hspot)
  · rw [if_pos hname, if_pos hname]
    exact hkept (hname ▸ hafter)
  · rw [if_neg hname, if_neg hname]
    exact h.kept other ((hothers other hname).1 hafter)

/-- A name that is given the same answer on both sides does not keep the part. -/
theorem set_clear (h : Standing x spot a b) {name : Text}
    (ha : ∀ other, a'.lookup other = if other = name then mine else a.lookup other)
    (hb : ∀ other, b'.lookup other = if other = name then yours else b.lookup other)
    (hclear : Clear mine yours) :
    ∃ after, (spot = none → after = none) ∧ Standing x after a' b' := by
  by_cases hspot : spot = some name
  · refine ⟨none, fun _ => rfl, h.set ha hb (fun other hne => ?_) (fun _ => hclear) nofun⟩
    rw [hspot, Option.some_inj]
    exact ⟨nofun, fun heq => absurd heq.symm hne⟩
  · exact ⟨spot, id, h.set ha hb (fun _ _ => .rfl) (fun _ => hclear) fun heq => absurd heq hspot⟩

/-- What a name stands for behind an assignment of a command that is the same on both sides. -/
theorem defer_calm (h : Standing x spot a b) (name : Text) {command : Command}
    (hcommand : command.Everywhere Command.NeverDraws) :
    Standing x spot (a.bind name (.deferred command (a.lookup name)))
      (b.bind name (.deferred command (b.lookup name))) :=
  h.set (a.lookup_bind name _) (b.lookup_bind name _) (fun _ _ => .rfl)
    (fun hspot => (h.clear name hspot).deferred hcommand)
    fun hspot => .earlier hcommand (h.kept name hspot)

/-- Behind the assignment that holds the part its name keeps it. -/
theorem defer_replaced (h : Standing x none a b) (name : Text) {command other : Command}
    (hcommand : command.Replaced Command.NeverDraws x.Forms other) :
    Standing x (some name) (a.bind name (.deferred command (a.lookup name)))
      (b.bind name (.deferred other (b.lookup name))) := by
  have hclear := h.clear name nofun
  -- the part goes from the pairs into the scope: from now on the name is where it is found
  refine h.set (a.lookup_bind name _) (b.lookup_bind name _) (fun other hne => ?_)
    (fun hne => absurd rfl hne) fun _ => ?_
  · rw [Option.some_inj]
    exact ⟨fun heq => absurd heq.symm hne, nofun⟩
  · rw [← hclear.1]
    exact .value hcommand ⟨rfl, hclear.2⟩

/-- Inline variables that are the same on both sides keep the spot, and the one that holds the part
becomes it. -/
theorem inline (h : Standing x spot a b) {inlined : List (Text × Command × Command)}
    (hinlined : AtMostOnce x (inlined.map Prod.snd))
    (hspot : spot = none ∨ ∀ pair ∈ inlined.map Prod.snd, Calm pair) :
    ∃ after, Standing x after (a.push (inlineFrame a (inlined.map fun v => (v.1, v.2.1))))
      (b.push (inlineFrame b (inlined.map fun v => (v.1, v.2.2)))) := by
  have hmem : ∀ {name : Text} {value : Command × Command}, inlinedValue name inlined = some value →
      value ∈ inlined.map Prod.snd :=
    fun hvalue => List.mem_map_of_mem (f := Prod.snd) (mem_of_inlinedValue hvalue)
  have hcalm : ∀ {name : Text} {value : Command × Command}, Calm value →
      Clear (a.lookup name) (b.lookup name) →
      Clear (some (.deferred value.1 (a.lookup name))) (some (.deferred value.2 (b.lookup name))) :=
    fun hvalue hclear => hvalue.1 ▸ hclear.deferred hvalue.2
  by_cases hheld : ∃ name value, inlinedValue name inlined = some value ∧ ¬Calm value
  · obtain ⟨name, value, hvalue, hnot⟩ := hheld
    obtain rfl : spot = none := hspot.resolve_right fun hall => hnot (hall value (hmem hvalue))
    refine ⟨some name, fun other hother => ?_, fun other hother => ?_⟩
    · rw [Scope.lookup_inlining, Scope.lookup_inlining, inlinedValue_map, inlinedValue_map]
      cases hfound : inlinedValue other inlined with
      | none => exact h.clear other nofun
      | some found =>
        -- the part is under another name, so what is found here is the same on both sides
        have hsymm : Std.Symm fun v w : Text × Command × Command => Calm v.2 ∨ Calm w.2 :=
          ⟨fun _ _ => Or.symm⟩
        have hne : (other, found) ≠ (name, value) := fun heq =>
          hother (congrArg (fun v => some v.1) heq.symm)
        have hcalm' := (List.pairwise_map.1 hinlined.once).forall (mem_of_inlinedValue hfound)
          (mem_of_inlinedValue hvalue) hne
        exact hcalm (hcalm'.resolve_right hnot) (h.clear other nofun)
    · obtain rfl := Option.some_inj.1 hother
      rw [Scope.lookup_inlining, Scope.lookup_inlining, inlinedValue_map, inlinedValue_map, hvalue]
      have hclear := h.clear name nofun
      have hkept := Kept.value ((hinlined.each value (hmem hvalue)).resolve_left hnot)
        (⟨rfl, hclear.2⟩ : Clear (a.lookup name) (a.lookup name))
      simpa only [Option.map_some, Option.elim_some, ← hclear.1] using hkept
  · have hall : ∀ name value, inlinedValue name inlined = some value → Calm value :=
      fun name value hvalue => not_not.1 fun hnot => hheld ⟨name, value, hvalue, hnot⟩
    refine ⟨spot, fun name hname => ?_, fun name hname => ?_⟩
    · rw [Scope.lookup_inlining, Scope.lookup_inlining, inlinedValue_map, inlinedValue_map]
      cases hfound : inlinedValue name inlined with
      | none => exact h.clear name hname
      | some found => exact hcalm (hall name found hfound) (h.clear name hname)
    · rw [Scope.lookup_inlining, Scope.lookup_inlining, inlinedValue_map, inlinedValue_map]
      cases hfound : inlinedValue name inlined with
      | none => exact h.kept name hname
      | some found =>
        have hsame := hall name found hfound
        have hkept := Kept.earlier hsame.2 (h.kept name hname)
        simpa only [Option.map_some, Option.elim_some, ← hsame.1] using hkept

end Standing

end Standing

/-! ## 4. One occurrence -/

/-- Both sides are the same; or nothing is drawn, and the part occurs at most once, in a node or
under a name. -/
inductive Once (x : Inclusion) (method : Sampling) (pairs : List (Command × Command))
    (a b : Scope) :
    Prop
  | same (h : Same pairs a b)
  | quiet (spot : Option Text) (hmethod : method ≠ .random) (hpairs : AtMostOnce x pairs)
      (hspot : spot = none ∨ ∀ pair ∈ pairs, Calm pair) (h : Standing x spot a b)

namespace Once

variable {method : Sampling} {pair first : Command × Command}
  {pairs others below : List (Command × Command)} {a b : Scope}

/-- One tree that is the same on both sides, wherever the part is kept. -/
theorem twin (hmethod : method ≠ .random) {spot : Option Text} (h : Standing x spot a b)
    {command : Command} (hcommand : command.Everywhere Command.NeverDraws) :
    Once x method [(command, command)] a b := by
  have hcalm : ∀ pair ∈ [(command, command)], Calm pair := fun pair hmem => by
    rw [List.mem_singleton.1 hmem]
    exact ⟨rfl, hcommand⟩
  exact .quiet spot hmethod (.of_calm hcalm) (.inr hcalm) h

/-- Fewer pairs hold it no more than once. -/
theorem sub (h : Once x method pairs a b) (hsub : others.Subperm pairs) :
    Once x method others a b := by
  cases h with
  | same h => exact .same (h.of_mem fun _ hmem => hsub.subset hmem)
  | quiet spot hmethod hpairs hspot h =>
    exact .quiet spot hmethod (hpairs.sub hsub)
      (hspot.imp_right fun hall pair hmem => hall pair (hsub.subset hmem)) h

/-- A pair is the two forms, or two nodes of one kind with their parts. -/
theorem shape (h : Once x method (pair :: pairs) a b) :
    x.Forms pair.1 pair.2 ∨ ∃ below, pair.1.Paired pair.2 below := by
  cases h with
  | same h => exact .inr h.shape
  | quiet _ _ hpairs _ _ => exact hpairs.shape

/-- The occurrence goes from a node to its parts. -/
theorem parts (h : Once x method (pair :: pairs) a b) (hpaired : pair.1.Paired pair.2 below) :
    Once x method (below ++ pairs) a b := by
  cases h with
  | same h => exact .same (h.parts hpaired)
  | quiet spot hmethod hpairs hspot h =>
    refine .quiet spot hmethod (hpairs.parts hpaired) (hspot.imp_right fun hall => ?_) h
    obtain ⟨hpair, hrest⟩ := List.forall_mem_cons.1 hall
    exact List.forall_mem_append.2 ⟨hpair.parts hpaired, hrest⟩

/-- The method that a node declares does not draw where the part could be drawn. -/
theorem declared (h : Once x method (pair :: pairs) a b) (hdraws : x.sampling ≠ some .random) :
    Once x (pair.1.declared.getD method) (pair :: pairs) a b := by
  cases h with
  | same h => exact .same h
  | quiet spot hmethod hpairs hspot h =>
    exact .quiet spot (hpairs.declared_ne hdraws hmethod) hpairs hspot h

/-- Neither does the method by which it is walked. -/
theorem walked (h : Once x method pairs a b) : Once x method.walked pairs a b := by
  cases h with
  | same h => exact .same h
  | quiet spot hmethod hpairs hspot h =>
    exact .quiet spot (Sampling.walked_ne hmethod) hpairs hspot h

/-- Where the two forms meet everything else is the same on both sides. -/
theorem value (h : Once x method (pair :: pairs) a b) (hforms : x.Forms pair.1 pair.2) :
    method ≠ .random ∧ Once x method ((x.value, x.value) :: pairs) a b := by
  cases h with
  | same h => exact absurd hforms h.not_forms
  | quiet spot hmethod hpairs hspot h =>
    have hnot : ¬Calm pair := fun hcalm => hcalm.not_forms hforms
    obtain rfl := hspot.resolve_right fun hall => hnot (hall pair List.mem_cons_self)
    exact ⟨hmethod, .same ⟨List.forall_mem_cons.2 ⟨rfl, fun other hmem =>
      (hpairs.rest hnot other hmem).1⟩, h.agrees⟩⟩

/-- By drawing there is no occurrence left to meet. -/
theorem same_of_random (h : Once x .random pairs a b) : Same pairs a b := by
  cases h with
  | same h => exact h
  | quiet _ hmethod _ _ _ => exact absurd rfl hmethod

/-- What is bound to a name holds the occurrence, or does not; the case of the standing one is its
name. -/
theorem binding (h : Once x method pairs a b) (name : Text) :
    Reading (Once x method) a b name (a.lookup name) (b.lookup name) := by
  cases h with
  | same h => exact (h.binding name).mono fun _ _ _ => .same
  | quiet spot hmethod _ _ h =>
    by_cases hname : spot = some name
    · have hkept := h.kept name hname
      revert hkept
      generalize a.lookup name = mine, b.lookup name = yours
      intro hkept
      cases hkept with
      | value hcommand hprevious =>
        -- the name reads as before now, so the part is in the command and nowhere else
        refine .deferred (.quiet none hmethod (.single hcommand) (.inl rfl) ?_)
        exact h.set (a.lookup_resolving name _) (b.lookup_resolving name _)
          (fun other hne => by
            rw [hname, Option.some_inj]
            exact ⟨nofun, fun heq => absurd heq.symm hne⟩)
          (fun _ => hprevious) nofun
      | earlier hcommand hearlier =>
        exact .deferred (twin hmethod (h.set (a.lookup_resolving name _) (b.lookup_resolving name _)
          (fun _ _ => .rfl) (fun hne => absurd hname hne) fun _ => hearlier) hcommand)
    · obtain ⟨hsame, hclear⟩ := h.clear name hname
      rw [← hsame]
      cases hlookup : a.lookup name with
      | none => exact .none
      | some binding =>
        have hbinding := hclear binding hlookup
        cases hbinding with
        | evaluated text => exact .evaluated text
        | deferred command previous hcommand hearlier =>
          exact .deferred
            (twin hmethod (h.set (a.lookup_resolving name _) (b.lookup_resolving name _)
            (fun _ _ => .rfl) (fun _ => ⟨rfl, hearlier⟩) fun heq => absurd heq hname) hcommand)

/-- Inline variables take the occurrence into the inner scope. -/
theorem inline {inlined : List (Text × Command × Command)} {command : Command}
    (h : Once x method (inlined.map Prod.snd) a b)
    (hcommand : command.Everywhere Command.NeverDraws) :
    Once x method [(command, command)]
      (a.push (inlineFrame a (inlined.map fun v => (v.1, v.2.1))))
      (b.push (inlineFrame b (inlined.map fun v => (v.1, v.2.2)))) := by
  cases h with
  | same h => exact .same (h.inline command)
  | quiet spot hmethod hpairs hspot h =>
    obtain ⟨after, hafter⟩ := h.inline hpairs hspot
    exact twin hmethod hafter hcommand

/-- A finished text takes the place of whatever was bound. -/
theorem evaluate (h : Once x method pairs a b) (name text : Text) :
    Once x method pairs (a.bind name (.evaluated text)) (b.bind name (.evaluated text)) := by
  cases h with
  | same h => exact .same (h.evaluate name text)
  | quiet spot hmethod hpairs hspot h =>
    obtain ⟨after, hnone, hafter⟩ := h.set_clear (a.lookup_bind name _) (b.lookup_bind name _)
      (Clear.evaluated text)
    exact .quiet after hmethod hpairs (hspot.imp_left hnone) hafter

/-- A deferred value takes the occurrence from the pairs into the scope. -/
theorem defer (h : Once x method (first :: pairs) a b) (name : Text) :
    Once x method pairs (a.bind name (.deferred first.1 (a.lookup name)))
      (b.bind name (.deferred first.2 (b.lookup name))) := by
  cases h with
  | same h => exact .same (h.defer name)
  | quiet spot hmethod hpairs hspot h =>
    have hrest := hpairs.sub (List.sublist_cons_self first pairs).subperm
    -- a value that holds the part takes it along, and the pairs behind it then hold none
    by_cases hcalm : Calm first
    · rw [← hcalm.1]
      exact .quiet spot hmethod hrest
        (hspot.imp_right fun hall other hmem => hall other (List.mem_cons_of_mem _ hmem))
        (h.defer_calm name hcalm.2)
    · obtain rfl := hspot.resolve_right fun hall => hcalm (hall first List.mem_cons_self)
      have hfirst := (hpairs.each first List.mem_cons_self).resolve_left hcalm
      exact .quiet (some name) hmethod hrest (.inr (hpairs.rest hcalm))
        (h.defer_replaced name hfirst)

end Once

/-- The part occurs at most once, and whatever it does, nothing around it draws. -/
def once (x : Inclusion) (hdraws : x.sampling ≠ some .random) :
    Pairing x (Command.Everywhere Command.NeverDraws) where
  admits := Once x
  sub h hsub := h.sub hsub
  shape h := h.shape
  parts h := h.parts
  declared h := h.declared hdraws
  walked h := h.walked
  value h := h.value
  again h hmem := .same (h.same_of_random.of_mem (List.forall_mem_cons.2 ⟨hmem, fun _ => id⟩))
  free h _ := .same h.same_of_random
  binding h := h.binding
  inline h := h.inline
  evaluate h := h.evaluate
  defer h := h.defer

/-! ## 5. Any number of occurrences -/

/-- The part occurs anywhere, and nothing is drawn. -/
structure Throughout (x : Inclusion) (method : Sampling) (pairs : List (Command × Command))
    (a b : Scope) : Prop where
  method_ne : method ≠ .random
  nodes : ∀ pair ∈ pairs, pair.1.Exchanged x.Forms pair.2 ∧ pair.1.Everywhere Command.NeverDraws
  scopes : a.Exchanged x.Forms b
  never : a.Everywhere Command.NeverDraws

namespace Throughout

variable {method : Sampling} {pair first : Command × Command}
  {pairs others below : List (Command × Command)} {a b : Scope}

/-- Fewer pairs have it in no other places. -/
theorem sub (h : Throughout x method pairs a b) (hsub : others.Subperm pairs) :
    Throughout x method others a b :=
  { h with nodes := fun pair hmem => h.nodes pair (hsub.subset hmem) }

/-- A pair is the two forms, or two nodes of one kind with their parts. -/
theorem shape (h : Throughout x method (pair :: pairs) a b) :
    x.Forms pair.1 pair.2 ∨ ∃ below, pair.1.Paired pair.2 below := by
  cases (h.nodes pair List.mem_cons_self).1 with
  | here hforms => exact .inl hforms
  | inside hpaired _ => exact .inr ⟨_, hpaired⟩

/-- The parts of a node have it in their places. -/
theorem parts (h : Throughout x method (pair :: pairs) a b) (hpaired : pair.1.Paired pair.2 below) :
    Throughout x method (below ++ pairs) a b := by
  obtain ⟨⟨hpair, hnever⟩, hpairs⟩ := List.forall_mem_cons.1 h.nodes
  refine { h with nodes := List.forall_mem_append.2 ⟨fun part hmem => ?_, hpairs⟩ }
  refine ⟨?_, hnever.of_part (hpaired.fst_mem hmem)⟩
  cases hpair with
  | here hforms => exact absurd hpaired (hforms.not_paired below)
  | inside hpaired' hparts => exact hparts part (hpaired.unique hpaired' ▸ hmem)

/-- A node declares drawing in no place where the part could be drawn. -/
theorem declared (h : Throughout x method (pair :: pairs) a b) :
    Throughout x (pair.1.declared.getD method) (pair :: pairs) a b :=
  { h with method_ne := (h.nodes pair List.mem_cons_self).2.here.method_ne h.method_ne }

/-- Walking by a method draws where the method does. -/
theorem walked (h : Throughout x method pairs a b) : Throughout x method.walked pairs a b :=
  { h with method_ne := Sampling.walked_ne h.method_ne }

/-- In the place of the two forms the method does not draw, and the value has none of them. -/
theorem value (h : Throughout x method (pair :: pairs) a b) (hforms : x.Forms pair.1 pair.2) :
    method ≠ .random ∧ Throughout x method ((x.value, x.value) :: pairs) a b := by
  obtain ⟨⟨-, hnever⟩, hpairs⟩ := List.forall_mem_cons.1 h.nodes
  have hvalue : x.value ∈ pair.1.parts := by
    rcases hforms with ⟨hpair, -⟩ | ⟨hpair, -⟩ <;> rw [hpair]
    · exact List.mem_singleton_self _
    · exact List.mem_cons_of_mem _ (List.mem_singleton_self _)
  have hnodes : ∀ other ∈ (x.value, x.value) :: pairs,
      other.1.Exchanged x.Forms other.2 ∧ other.1.Everywhere Command.NeverDraws :=
    List.forall_mem_cons.2 ⟨⟨.refl _ x.value, hnever.of_part hvalue⟩, hpairs⟩
  exact ⟨h.method_ne, { h with nodes := hnodes }⟩

/-- A command that a name keeps renders where the name reads as what it was before. -/
theorem reading (h : Throughout x method pairs a b) (name : Text) {command other : Command}
    {earlier previous : Option Binding}
    (hbinding : (Binding.deferred command earlier).Everywhere Command.NeverDraws)
    (hcommand : command.Exchanged x.Forms other)
    (hearlier : Option.Rel (Binding.Exchanged x.Forms) earlier previous) :
    Reading (Throughout x method) a b name (some (.deferred command earlier))
      (some (.deferred other previous)) := by
  have hnever : command.Everywhere Command.NeverDraws := by
    cases hbinding with
    | deferred _ _ hcommand _ => exact hcommand
  exact .deferred ⟨h.method_ne, List.forall_mem_singleton.2 ⟨hcommand, hnever⟩,
    h.scopes.resolving hearlier name, h.never.resolving name hbinding⟩

/-- What is bound to a name has the part in its places. -/
theorem binding (h : Throughout x method pairs a b) (name : Text) :
    Reading (Throughout x method) a b name (a.lookup name) (b.lookup name) := by
  have hexchanged := h.scopes name
  have hnever := h.never name
  revert hexchanged hnever
  generalize a.lookup name = mine, b.lookup name = yours
  intro hexchanged hnever
  cases hexchanged with
  | none => exact .none
  | some hbinding =>
    have heverywhere := hnever _ rfl
    cases hbinding with
    | evaluated text => exact .evaluated text
    | first hcommand => exact h.reading name heverywhere hcommand .none
    | again hcommand hearlier => exact h.reading name heverywhere hcommand (.some hearlier)

/-- Inline variables take the places into the inner scope. -/
theorem inline {inlined : List (Text × Command × Command)} {command : Command}
    (h : Throughout x method (inlined.map Prod.snd) a b)
    (hcommand : command.Everywhere Command.NeverDraws) :
    Throughout x method [(command, command)]
      (a.push (inlineFrame a (inlined.map fun v => (v.1, v.2.1))))
      (b.push (inlineFrame b (inlined.map fun v => (v.1, v.2.2)))) := by
  have hinlined := List.forall_mem_map.1 h.nodes
  exact ⟨h.method_ne, List.forall_mem_singleton.2 ⟨.refl _ _, hcommand⟩,
    h.scopes.inlining fun v hmem => (hinlined v hmem).1,
    h.never.inlining (List.forall_mem_map.2 fun v hmem => (hinlined v hmem).2)⟩

/-- A finished text has no place. -/
theorem evaluate (h : Throughout x method pairs a b) (name text : Text) :
    Throughout x method pairs (a.bind name (.evaluated text)) (b.bind name (.evaluated text)) :=
  ⟨h.method_ne, h.nodes, h.scopes.bind (.evaluated text) name, h.never.bind (.evaluated text) name⟩

/-- A deferred value takes its places into the scope. -/
theorem defer (h : Throughout x method (first :: pairs) a b) (name : Text) :
    Throughout x method pairs (a.bind name (.deferred first.1 (a.lookup name)))
      (b.bind name (.deferred first.2 (b.lookup name))) := by
  obtain ⟨⟨hfirst, hnever⟩, hpairs⟩ := List.forall_mem_cons.1 h.nodes
  exact ⟨h.method_ne, hpairs, h.scopes.bind (.deferred hfirst (h.scopes name)) name,
    h.never.bind (.deferred _ _ hnever fun binding => h.never name binding) name⟩

end Throughout

/-- The part occurs any number of times, and nothing draws, the part included. -/
def throughout (x : Inclusion) : Pairing x (Command.Everywhere Command.NeverDraws) where
  admits := Throughout x
  sub h hsub := h.sub hsub
  shape h := h.shape
  parts h := h.parts
  declared h := h.declared
  walked h := h.walked
  value h := h.value
  again h _ := absurd rfl h.method_ne
  free h := absurd rfl h.method_ne
  binding h := h.binding
  inline h := h.inline
  evaluate h := h.evaluate
  defer h := h.defer

/-! ## 6. The scopes at the end -/

/-- What stands for a name at the end differs in the places of the part alone. -/
theorem Kept.exchanged {mine yours : Option Binding} (h : Kept x mine yours) :
    Option.Rel (Binding.Exchanged x.Forms) mine yours := by
  induction h with
  | value hcommand hprevious =>
    exact .some (.deferred hcommand.exchanged (Binding.exchanged_self _ _))
  | earlier hcommand _ ih => exact .some (.deferred (.refl _ _) ih)

/-- Scopes in which the part occurs once, or not at all, answer alike up to the form of the part. -/
theorem Once.exchanged {method : Sampling} {pairs : List (Command × Command)} {a b : Scope}
    (h : Once x method pairs a b) : a.Exchanged x.Forms b := by
  cases h with
  | same h => exact .of_agrees _ h.scopes
  | quiet spot _ _ _ h =>
    intro name
    by_cases hspot : spot = some name
    · exact (h.kept name hspot).exchanged
    · rw [← (h.clear name hspot).1]
      exact Binding.exchanged_self _ _

end Pairing

end PromptTemplate
